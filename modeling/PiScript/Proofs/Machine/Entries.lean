import PiScript.Proofs.Grammar.RoundTrip
import PiScript.Proofs.Machine.Output

/-!
# Entry by entry

Running texts one after another on one machine, as a session does, against running the text that
joins them. Every run ends with an empty line, and the joined run has only one of these; apart from
that both do the same, and fail alike.
-/

namespace PiScript

open Grammar Token

def concatBytes : List ByteArray → ByteArray
  | [] => .empty
  | b :: bs => b ++ concatBytes bs

/-- The programs run in turn on one machine, all of them ending well; `outs` is what each wrote. -/
inductive RunsInTurn (files : Files) :
    List Program → Machine → List ByteArray → Machine → Prop where
  | nil (m : Machine) : RunsInTurn files [] m [] m
  | cons {p : Program} {ps : List Program} {m m₁ m₂ : Machine} {outs : List ByteArray}
      (run : p.Ends files m (.done m₁)) (rest : RunsInTurn files ps m₁ outs m₂) :
      RunsInTurn files (p :: ps) m (m₁.outputSince m :: outs) m₂

-- The induction carries two machines with the same namespaces: the one that the programs run on in
-- turn, and the one that runs their statements without the empty lines between them.
theorem runAll_of_runsInTurn {files : Files} {ps : List Program} {m m₁ m' : Machine}
    {outs : List ByteArray} (hrun : RunsInTurn files ps m outs m₁) (h : m.sink.Unlimited)
    (h' : m'.sink.Unlimited) (henv : m.env = m'.env) :
    ∃ fuel fronts m₂, outs = fronts.map (· ++ newline) ∧
      runAll (Stmt.exec files fuel) ps.flatten m' = .done m₂ ∧ m₁.env = m₂.env ∧
      m₁.sink.Unlimited ∧ m'.Wrote m₂ (concatBytes fronts) := by
  induction hrun generalizing m' with
  | nil m => exact ⟨0, [], m', rfl, rfl, henv, h, .nil h'⟩
  | @cons p ps m ma mb outs run rest ih =>
    obtain ⟨-, fuel₁, hrun₁⟩ := run
    obtain ⟨front, mc, hall₁, henv₁, hwrote, hfront⟩ :=
      Program.runAll_of_run_done h h' henv hrun₁
    obtain ⟨fuel₂, fronts, md, houts, hall₂, henv₂, hlast, hfronts⟩ :=
      ih hwrote.unlimited hfront.unlimited henv₁
    -- The fuel that suffices for both parts is the larger of the two amounts.
    refine ⟨max fuel₁ fuel₂, front :: fronts, md, ?_, ?_, henv₂, hlast, hfront.trans hfronts⟩
    · rw [hwrote.outputSince_eq, houts, List.map_cons]
    · have hmore₁ : runAll (Stmt.exec files (max fuel₁ fuel₂)) p m' = .done mc := by
        rw [runAll_of_le (Nat.le_max_left fuel₁ fuel₂) (by rw [hall₁]; simp), hall₁]
      have hmore₂ : runAll (Stmt.exec files (max fuel₁ fuel₂)) ps.flatten mc = .done md := by
        rw [runAll_of_le (Nat.le_max_right fuel₁ fuel₂) (by rw [hall₂]; simp), hall₂]
      rw [List.flatten_cons, runAll_append, hmore₁]
      exact hmore₂

/-- If all programs end well in turn, so does their concatenation. -/
theorem ends_of_runsInTurn {files : Files} {ps : List Program} {m m₁ : Machine}
    {outs : List ByteArray} (hrun : RunsInTurn files ps m outs m₁) (h : m.sink.Unlimited) :
    ∃ fronts m₂, outs = fronts.map (· ++ newline) ∧
      Program.Ends files ps.flatten m (.done m₂) ∧ m₁.env = m₂.env ∧
      m.Wrote m₂ (concatBytes fronts ++ newline) := by
  obtain ⟨fuel, fronts, m₂, houts, hall, henv, -, hfronts⟩ := runAll_of_runsInTurn hrun h h rfl
  obtain ⟨m₃, hprint, henv₃, hwrote⟩ := Machine.exists_printLine hfronts.unlimited ""
  refine ⟨fronts, m₃, houts, ⟨by simp, fuel, ?_⟩, henv.trans henv₃.symm, hfronts.trans hwrote⟩
  rw [Program.run_eq h, hall]
  exact hprint

/-- If some program fails behind others that end well, the concatenation fails alike, whatever
follows. -/
theorem fails_of_runsInTurn {files : Files} {before after : List Program} {p : Program}
    {m m₁ m₂ : Machine} {outs : List ByteArray} {e : Error}
    (hrun : RunsInTurn files before m outs m₁) (hfail : p.Ends files m₁ (.failed e m₂))
    (h : m.sink.Unlimited) :
    ∃ fronts m₃, outs = fronts.map (· ++ newline) ∧
      Program.Ends files (before ++ p :: after).flatten m (.failed e m₃) ∧ m₂.env = m₃.env ∧
      m.Wrote m₃ (concatBytes fronts ++ m₂.outputSince m₁) := by
  obtain ⟨fuel₁, fronts, ma, houts, hall₁, henv₁, h₁, hfronts⟩ :=
    runAll_of_runsInTurn hrun h h rfl
  obtain ⟨-, fuel₂, hrun₂⟩ := hfail
  obtain ⟨out, mb, hall₂, henv₂, hout, hout'⟩ :=
    Program.runAll_of_run_failed h₁ hfronts.unlimited henv₁ hrun₂
  have hmore₁ : runAll (Stmt.exec files (max fuel₁ fuel₂)) before.flatten m = .done ma := by
    rw [runAll_of_le (Nat.le_max_left fuel₁ fuel₂) (by rw [hall₁]; simp), hall₁]
  have hmore₂ : runAll (Stmt.exec files (max fuel₁ fuel₂)) p ma = .failed e mb := by
    rw [runAll_of_le (Nat.le_max_right fuel₁ fuel₂) (by rw [hall₂]; simp), hall₂]
  -- The failure ends the run, so the programs behind `p` do not matter.
  refine ⟨fronts, mb, houts, ⟨by simp, max fuel₁ fuel₂, ?_⟩, henv₂, ?_⟩
  · rw [Program.run_eq h, List.flatten_append, List.flatten_cons, runAll_append, hmore₁]
    show ((runAll _ (p ++ after.flatten) ma).andThen _) = _
    rw [runAll_append, hmore₂]
    rfl
  · rw [hout.outputSince_eq]
    exact hfronts.trans hout'

/-- Texts that are run in turn on one machine, and the text that joins them. -/
theorem joined_entries_run {files : Files} {entries : List String} {programs : List Program}
    (hparse : List.Forall₂ (fun s p => Program.ofText s = .ok p) entries programs)
    {m : Machine} (hsink : m.sink.Unlimited) :
    Program.ofText ("\n".intercalate entries) = .ok programs.flatten ∧
    (∀ outs m₁, RunsInTurn files programs m outs m₁ →
      ∃ fronts m₂, outs = fronts.map (· ++ newline) ∧
        Program.Ends files programs.flatten m (.done m₂) ∧ m₂.env = m₁.env ∧
        m₂.sink.written = m.sink.written ++ (concatBytes fronts ++ newline)) ∧
    (∀ before p after outs m₁ e m₂, programs = before ++ p :: after →
      RunsInTurn files before m outs m₁ → Program.Ends files p m₁ (.failed e m₂) →
      ∃ fronts m₃, outs = fronts.map (· ++ newline) ∧
        Program.Ends files programs.flatten m (.failed e m₃) ∧ m₃.env = m₂.env ∧
        m₃.sink.written = m.sink.written ++ (concatBytes fronts ++ m₂.outputSince m₁)) := by
  refine ⟨ofText_intercalate hparse, ?_, ?_⟩
  · intro outs m₁ hrun
    obtain ⟨fronts, m₂, houts, hends, henv, hwrote⟩ := ends_of_runsInTurn hrun hsink
    exact ⟨fronts, m₂, houts, hends, henv.symm, hwrote.written_eq⟩
  · rintro before p after outs m₁ e m₂ rfl hrun hfail
    obtain ⟨fronts, m₃, houts, hends, henv, hwrote⟩ := fails_of_runsInTurn hrun hfail hsink
    exact ⟨fronts, m₃, houts, hends, henv.symm, hwrote.written_eq⟩

/-! The second of three entries calls a function that none of them defines. -/

def printTree : ProgramTree :=
  .cons (.simple (.print (.operand (.ofValue (.text "a"))) stopWord)) .nil

theorem isName_f : IsName "f" := by
  decide +kernel

def callTree : ProgramTree :=
  .cons (.simple (.call callWord (.ofName isName_f) stopWord)) .nil

def afterPrint : Machine :=
  { sink := { written := .empty ++ ("a" ++ "\n").toUTF8 ++ ("" ++ "\n").toUTF8 } }

theorem call_fails_in_joined_entries :
    List.Forall₂ (fun s p => Program.ofText s = .ok p)
      ["+a+ 3.", "3.1415926535 +f+ 3.", "+a+ 3."]
      [[.print (some (.operand (.text "a")))], [.call "f"],
        [.print (some (.operand (.text "a")))]] ∧
    ∃ fronts m, ["a\n\n".toUTF8] = fronts.map (· ++ newline) ∧
      Program.Ends (fun _ => .error .notFound)
        [.print (some (.operand (.text "a"))), .call "f", .print (some (.operand (.text "a")))] {}
        (.failed ⟨.undeclaredFunction "f", none⟩ m) ∧
      m.env = .empty ∧ m.sink.written = .empty ++ (concatBytes fronts ++ .empty) := by
  have hprint : Program.ofText "+a+ 3." = .ok [.print (some (.operand (.text "a")))] := by
    have hvalue : Value.ofLiteral "+a+" = .text "a" := by decide +kernel
    refine ofText_eq_ok_iff.mpr ⟨printTree, by decide +kernel, ?_⟩
    show [Stmt.print (some (.operand (Value.ofLiteral "+a+")))] = _
    rw [hvalue]
  have hcall : Program.ofText "3.1415926535 +f+ 3." = .ok [.call "f"] :=
    ofText_eq_ok_iff.mpr ⟨callTree, by decide +kernel, rfl⟩
  have hparse : List.Forall₂ (fun s p => Program.ofText s = .ok p)
      ["+a+ 3.", "3.1415926535 +f+ 3.", "+a+ 3."] [_, _, _] :=
    .cons hprint (.cons hcall (.cons hprint .nil))
  refine ⟨hparse, ?_⟩
  have hfirst : RunsInTurn (fun _ => .error .notFound) [[.print (some (.operand (.text "a")))]] {}
      [afterPrint.outputSince {}] afterPrint :=
    .cons ⟨by simp, 1, rfl⟩ (.nil _)
  have hfail : Program.Ends (fun _ => .error .notFound) [.call "f"] afterPrint
      (.failed ⟨.undeclaredFunction "f", none⟩ afterPrint) :=
    ⟨by simp, 1, rfl⟩
  have hout : afterPrint.outputSince {} = "a\n\n".toUTF8 := by decide +kernel
  have hnone : afterPrint.outputSince afterPrint = .empty := by decide +kernel
  have hjoined := (joined_entries_run hparse ⟨rfl, rfl⟩).2.2 [_] _ [_] _ _ _ _ rfl hfirst hfail
  rw [hout, hnone] at hjoined
  exact hjoined

end PiScript
