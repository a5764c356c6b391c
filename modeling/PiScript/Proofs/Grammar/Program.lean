import PiScript.Proofs.Grammar.Unambiguous
import PiScript.Proofs.Statement.Agreement

/-!
# Programs and their derivations

The main result on the grammar: on tokens without malformed words, parsing succeeds exactly on what
the grammar derives and builds what the derivation builds; there is at most one derivation; and
tokens behind the end of file have no influence.
-/

namespace PiScript

namespace Grammar

open Parse

theorem find?_malformed {ts : List Token} (hmal : ∀ t ∈ ts, t.kind ≠ .malformed) :
    ts.find? (·.kind = .malformed) = none := by
  rw [List.find?_eq_none]
  intro t ht
  simpa using hmal t ht

theorem not_malformed_of_find? {ts : List Token} (h : ts.find? (·.kind = .malformed) = none) :
    ∀ t ∈ ts, t.kind ≠ .malformed := by
  intro t ht
  simpa using List.find?_eq_none.mp h t ht

theorem ofTokens_of_find? {ts : List Token} {t : Token}
    (h : ts.find? (·.kind = .malformed) = some t) :
    Program.ofTokens ts = .error ⟨.unexpectedWord t.text, some t.pos⟩ := by
  rw [Program.ofTokens, h]

theorem ofTokens_eq {ts : List Token} (hmal : ∀ t ∈ ts, t.kind ≠ .malformed) :
    Program.ofTokens ts = (assemble [] [] ts).mapError (Failure.toError ts) := by
  rw [Program.ofTokens, find?_malformed hmal]

theorem ofTokens_eq_ok_iff {ts : List Token} {p : Program}
    (hmal : ∀ t ∈ ts, t.kind ≠ .malformed) :
    Program.ofTokens ts = .ok p ↔ assemble [] [] ts = .ok p := by
  rw [ofTokens_eq hmal]
  cases assemble [] [] ts with
  | error f =>
    show Except.error (Failure.toError ts f) = .ok p ↔ Except.error f = .ok p
    simp
  | ok q =>
    show (Except.ok q : Except Error Program) = .ok p ↔
      (Except.ok q : Except Failure Program) = .ok p
    simp

theorem ofTokens_eq_ok_iff_derivation {ts : List Token} {p : Program}
    (hmal : ∀ t ∈ ts, t.kind ≠ .malformed) :
    Program.ofTokens ts = .ok p ↔ ∃ d : ProgramTree, d.tokens = beforeEnd ts ∧ d.program = p := by
  rw [ofTokens_eq_ok_iff hmal, assemble_eq_ok_iff hmal]
  rfl

/-! ## Tokens behind the end of file -/

theorem agree_behind (front : List Token) {stop : Token} (hstop : stop.kind = .eof)
    (back back' : List Token) : Agree Eq (front ++ stop :: back) (front ++ stop :: back') := by
  induction front with
  | nil => exact .ended back back' rfl hstop
  | cons t front ih => exact .cons rfl ih

theorem sameSpelling_of_eq : ∀ t u : Token, t = u → SameSpelling t u := by
  rintro t _ rfl
  exact ⟨rfl, rfl⟩

theorem Agree.place_eq {ts us rest rest' : List Token} (h : Agree Eq rest rest') :
    Failure.place ts rest = Failure.place us rest' := by
  cases h with
  | ended ts us h heof =>
    subst h
    rfl
  | cons h rest =>
    subst h
    rfl

/-- Token lists that agree up to their end of file give the same result, and the same error. -/
theorem ofTokens_eq_of_agree {ts us : List Token} (hts : ∀ t ∈ ts, t.kind ≠ .malformed)
    (hus : ∀ t ∈ us, t.kind ≠ .malformed) (h : Agree Eq ts us) :
    Program.ofTokens ts = Program.ofTokens us := by
  -- A failure is in front of tokens that agree, so it is reported at the same place.
  have hmatch := assemble_matches sameSpelling_of_eq h [] []
  rw [ofTokens_eq hts, ofTokens_eq hus]
  generalize assemble [] [] ts = x at hmatch
  generalize assemble [] [] us = y at hmatch
  cases hmatch with
  | ok h => rw [h]; rfl
  | @error cause rest rest' hrest =>
    show Except.error (⟨cause, some (Failure.place ts rest)⟩ : Error) =
      .error ⟨cause, some (Failure.place us rest')⟩
    rw [Agree.place_eq hrest]

/-! ## The parser and the grammar -/

/-- Parsing succeeds exactly on the tokens, up to the end of file, of a derivation and gives what it
builds; the derivation is unique; and what stands behind the end of file does not matter. -/
theorem parse_iff_unique_derivation (ts : List Token) (hmal : ∀ t ∈ ts, t.kind ≠ .malformed) :
    (∀ p, Program.ofTokens ts = .ok p ↔
      ∃ d : ProgramTree, d.tokens = beforeEnd ts ∧ d.program = p) ∧
    (∀ d d' : ProgramTree, d.tokens = beforeEnd ts → d'.tokens = beforeEnd ts → d = d') ∧
    (∀ (front : List Token) (stop : Token) (back back' : List Token),
      ts = front ++ stop :: back → stop.kind = .eof → (∀ t ∈ back', t.kind ≠ .malformed) →
        Program.ofTokens (front ++ stop :: back') = Program.ofTokens ts) := by
  refine ⟨fun p => ofTokens_eq_ok_iff_derivation hmal, ?_, ?_⟩
  · intro d d' hd hd'
    exact ProgramTree.eq_of_tokens (hd.trans hd'.symm)
  · rintro front stop back back' rfl hstop hback'
    refine ofTokens_eq_of_agree ?_ hmal (agree_behind front hstop back' back)
    intro t ht
    rcases List.mem_append.mp ht with ht | ht
    · exact hmal t (List.mem_append_left _ ht)
    · rcases List.mem_cons.mp ht with rfl | ht
      · exact hmal t (by simp)
      · exact hback' t ht

/-- A branch around a call, with a stray end of block in front and words behind the end of file. -/
def branchTokens : List Token :=
  [⟨.endBlock, "3.14159265", ⟨1, 1⟩⟩,
   ⟨.branch, "3.14", ⟨2, 1⟩⟩, ⟨.operand, "+true+", ⟨2, 6⟩⟩, ⟨.lineEnd, "3.", ⟨2, 13⟩⟩,
   ⟨.call, "3.1415926535", ⟨3, 1⟩⟩, ⟨.operand, "+f+", ⟨3, 14⟩⟩, ⟨.lineEnd, "3.", ⟨3, 18⟩⟩,
   ⟨.endBlock, "3.14159265", ⟨4, 1⟩⟩, ⟨.lineEnd, "3.", ⟨4, 12⟩⟩,
   ⟨.eof, "", ⟨5, 1⟩⟩, ⟨.dashes, "--", ⟨5, 1⟩⟩]

def branchTree : ProgramTree :=
  .cons (.strayEnd ⟨⟨.endBlock, "3.14159265", ⟨1, 1⟩⟩, rfl⟩)
    (.cons
      (.block
        (.branch ⟨⟨.branch, "3.14", ⟨2, 1⟩⟩, rfl⟩ (.operand ⟨⟨.operand, "+true+", ⟨2, 6⟩⟩, rfl⟩)
          ⟨⟨.lineEnd, "3.", ⟨2, 13⟩⟩, rfl⟩)
        (.cons
          (.simple
            (.call ⟨⟨.call, "3.1415926535", ⟨3, 1⟩⟩, rfl⟩
              ⟨⟨.operand, "+f+", ⟨3, 14⟩⟩, "f", rfl, by decide +kernel⟩
              ⟨⟨.lineEnd, "3.", ⟨3, 18⟩⟩, rfl⟩))
          .nil)
        ⟨⟨.endBlock, "3.14159265", ⟨4, 1⟩⟩, rfl⟩ ⟨⟨.lineEnd, "3.", ⟨4, 12⟩⟩, rfl⟩)
      .nil)

theorem branchTokens_parse :
    (∀ t ∈ branchTokens, t.kind ≠ .malformed) ∧
      Program.ofTokens branchTokens = .ok [.branch (.operand (.truth true)) [.call "f"]] := by
  have hmal : ∀ t ∈ branchTokens, t.kind ≠ .malformed := by decide
  refine ⟨hmal, ((parse_iff_unique_derivation branchTokens hmal).1 _).mpr ⟨branchTree, ?_, ?_⟩⟩
  · rfl
  · have htrue : Value.ofLiteral "+true+" = .truth true := by decide +kernel
    show [Stmt.branch (.operand (Value.ofLiteral "+true+")) [.call "f"]] = _
    rw [htrue]

end Grammar

end PiScript
