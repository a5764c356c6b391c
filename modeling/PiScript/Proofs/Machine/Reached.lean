import PiScript.Proofs.Machine.Entries
import PiScript.Proofs.Machine.Footprint
import PiScript.Proofs.Value.Unbroken

/-!
# Namespaces that programs leave behind

Programs are read from texts, and a text can only write names without blanks that are neither
constants nor numerals. Everything that a run binds, prints or stores comes from such a program, from
a file that is read the same way, or from what earlier runs have left behind: the namespaces stay
well-formed step by step, at the end of every run, and from run to run.

It follows that every name in namespaces which programs left behind can be written in a program, and
means itself there (`bound_names_addressable`).
-/

namespace PiScript

open Grammar Token

/-! ## Well-formed programs, statement by statement -/

theorem Program.wellFormed_iff {p : Program} :
    Program.WellFormed p ↔ ∀ s ∈ p, s.WellFormed := by
  induction p with
  | nil => simp [Program.WellFormed]
  | cons s p ih => rw [Program.WellFormed, ih, List.forall_mem_cons]

theorem Stmt.WellFormed.block {s : Stmt} (h : s.WellFormed) : Program.WellFormed s.block := by
  cases s with
  | forEach source item body => exact h.2.2
  | loop cond step body => exact h.2.2
  | branch cond body => exact h.2
  | define name body => exact h.2
  | _ => trivial

theorem Program.WellFormed.of_contains {p : Program} {s : Stmt} (hp : Program.WellFormed p)
    (h : p.Contains s) : s.WellFormed := by
  induction h with
  | here h => exact wellFormed_iff.mp hp _ h
  | inside h _ ih => exact ih (wellFormed_iff.mp hp _ h).block

theorem Files.wellFormed_of_load {files : Files} {path : String} {body : Program}
    (h : files.load path = .ok body) : Program.WellFormed body := by
  unfold Files.load at h
  split at h
  · cases h
  · exact wellFormed_of_ofText h

/-! ## Well-formed namespaces -/

/-- Everything is bound under names; variables hold no blanks, and functions can be written out. -/
structure Env.WellFormed (env : Env) : Prop where
  vars : ∀ x v, env.get? x = some v → IsName x ∧ v.Unbroken
  functions : ∀ f body, env.function? f = some body → IsName f ∧ Program.WellFormed body

namespace Env.WellFormed

theorem empty : Env.empty.WellFormed where
  vars _ _ h := by cases h
  functions _ _ h := by cases h

variable {env : Env}

theorem define (henv : env.WellFormed) {name : String} {v : Value} (hname : IsName name)
    (hv : v.Unbroken) : (env.define name v).WellFormed where
  vars x w hx := by
    by_cases heq : x = name
    · subst heq
      rw [Env.get?_define_self] at hx
      cases hx
      exact ⟨hname, hv⟩
    · rw [Env.get?_define_of_ne _ _ heq] at hx
      exact henv.vars x w hx
  functions := henv.functions

theorem remove (henv : env.WellFormed) (name : String) : (env.remove name).WellFormed where
  vars x w hx := by
    by_cases heq : x = name
    · rw [heq, Env.get?_remove_self] at hx
      cases hx
    · rw [Env.get?_remove_of_ne _ heq] at hx
      exact henv.vars x w hx
  functions := henv.functions

theorem defineFunction (henv : env.WellFormed) {name : String} {body : Program}
    (hname : IsName name) (hbody : Program.WellFormed body) :
    (env.defineFunction name body).WellFormed where
  vars := henv.vars
  functions f b hf := by
    by_cases heq : f = name
    · subst heq
      rw [Env.function?_defineFunction_self] at hf
      cases hf
      exact ⟨hname, hbody⟩
    · rw [Env.function?_defineFunction_of_ne _ _ heq] at hf
      exact henv.functions f b hf

theorem eval (henv : env.WellFormed) {e : Expr} {v : Value} (he : e.WellFormed)
    (h : e.eval env = .ok v) : v.Unbroken :=
  Expr.eval_unbroken (fun x w hx => (henv.vars x w hx).2) he h

end Env.WellFormed

/-! ## Single steps -/

/-- What is bound, printed or stored is as in well-formed namespaces. -/
def Event.WellFormed : Event → Prop
  | .printed v => ∀ w ∈ v, w.Unbroken
  | .bound name v => IsName name ∧ v.Unbroken
  | .stored name body => IsName name ∧ Program.WellFormed body
  | .closed | .unbound _ => True

def Task.WellFormed : Task → Prop
  | .run s => s.WellFormed
  | .bind name v => IsName name ∧ v.Unbroken
  | .step e => e.WellFormed
  | .close | .unbind _ => True

theorem Env.WellFormed.event {env : Env} (henv : env.WellFormed) {a : Event} (ha : a.WellFormed) :
    (a.effect.onEnv env).WellFormed := by
  cases a with
  | printed v => cases v <;> exact henv
  | closed => exact henv
  | bound name v => exact henv.define ha.1 ha.2
  | unbound name => exact henv.remove name
  | stored name body => exact henv.defineFunction ha.1 ha.2

theorem Env.WellFormed.after {env : Env} (henv : env.WellFormed) {trace : List Event}
    (h : ∀ a ∈ trace, a.WellFormed) : (env.after trace).WellFormed := by
  induction trace generalizing env with
  | nil => exact henv
  | cons a trace ih =>
    obtain ⟨ha, htrace⟩ := List.forall_mem_cons.mp h
    exact ih (henv.event ha) htrace

theorem Task.wellFormed_ofBlock {p : Program} (hp : Program.WellFormed p) :
    ∀ t ∈ ofBlock p, t.WellFormed := by
  simp only [ofBlock, List.forall_mem_append, List.forall_mem_map, List.forall_mem_singleton]
  exact ⟨Program.wellFormed_iff.mp hp, trivial⟩

section

variable {files : Files} {env : Env} {t : Task} {shown : List Event} {more : List Task}

theorem Task.Performs.shown_wellFormed (henv : env.WellFormed) (ht : t.WellFormed)
    (h : t.Performs files env shown more) : ∀ a ∈ shown, a.WellFormed := by
  cases h with
  | bind name v => exact List.forall_mem_singleton.mpr ht
  | step htarget he =>
    -- The step is an operation on the variable that it binds.
    obtain ⟨op, right, rfl⟩ := Expr.eq_binary_of_stepTarget htarget
    have hstep : Expr.WellFormed (.binary op (.text _) right) := ht
    exact List.forall_mem_singleton.mpr ⟨hstep.1, henv.eval hstep he⟩
  | printBlank => simp [Event.WellFormed]
  | print he =>
    obtain ⟨x, hx, hwf⟩ := ht
    cases hx
    simpa [Event.WellFormed] using henv.eval hwf he
  | declareNull name => exact List.forall_mem_singleton.mpr ⟨ht.1, Value.unbroken_null⟩
  | declare name he => exact List.forall_mem_singleton.mpr ⟨ht.1, henv.eval (ht.2 _ rfl) he⟩
  | define name body => exact List.forall_mem_singleton.mpr ht
  | _ => simp [Event.WellFormed]

theorem Task.Performs.more_wellFormed (henv : env.WellFormed) (ht : t.WellFormed)
    (h : t.Performs files env shown more) : ∀ u ∈ more, u.WellFormed := by
  cases h with
  | inclusion hload => exact wellFormed_ofBlock (Files.wellFormed_of_load hload)
  | forEach item body hv hitems =>
    -- The items come from a variable, and variables hold no blanks.
    have hitem := Items.unbroken_of_mem (henv.vars _ _ hv).2 hitems
    have hbody := wellFormed_ofBlock (Stmt.WellFormed.block ht)
    simp only [List.forall_mem_append, List.forall_mem_flatMap, List.forall_mem_cons]
    exact ⟨fun v hmem => ⟨⟨ht.2.1, hitem v hmem⟩, hbody⟩, trivial, by simp⟩
  | loopRound step body hcond =>
    simp only [List.forall_mem_append, List.forall_mem_cons]
    exact ⟨wellFormed_ofBlock ht.2.2, ht.2.1, ht, by simp⟩
  | branchTaken body hcond => exact wellFormed_ofBlock ht.2
  | call hbody => exact wellFormed_ofBlock (henv.functions _ _ hbody).2
  | _ => simp

end

/-! ## Runs -/

theorem Runs.wellFormed {files : Files} {ts : List Task} {env : Env} {trace : List Event}
    {ending : Ending} (h : Runs files ts env trace ending) (henv : env.WellFormed)
    (hts : ∀ t ∈ ts, t.WellFormed) : ∀ a ∈ trace, a.WellFormed := by
  -- Two things are carried along the run: the namespaces and the tasks that are left.
  induction h with
  | step hperforms rest ih =>
    rw [List.forall_mem_cons] at hts
    have hshown := hperforms.shown_wellFormed henv hts.1
    rw [List.forall_mem_append]
    refine ⟨hshown, ih (henv.after hshown) ?_⟩
    rw [List.forall_mem_append]
    exact ⟨hperforms.more_wellFormed henv hts.1, hts.2⟩
  | _ => simp

/-- On every sink, where a run ends the namespaces are those behind some part of a trace. -/
theorem Program.Ends.exists_done {files : Files} {p : Program} {m m' : Machine}
    {result : Option Error} (hrun : p.Ends files m (.ended result m')) :
    ∃ trace ending done, Runs files (Task.ofBlock p) m.env trace ending ∧ done <+: trace ∧
      m'.env = m.env.after done := by
  obtain ⟨-, fuel, hrun⟩ := hrun
  obtain ⟨trace, ending, htrace, hplay⟩ := Program.run_follows files fuel p m.env
  rw [hplay m.sink] at hrun
  obtain ⟨r, hended⟩ := Program.exists_of_flush_eq_ended hrun
  obtain ⟨effects, ⟨more, hsplit⟩, henv⟩ := exists_done_of_play hended
  -- The effects that came about are those of a first part of the trace.
  obtain ⟨done, rest, rfl, rfl, -⟩ := List.append_eq_map_iff.mp hsplit
  exact ⟨_, ending, done, htrace, List.prefix_append done rest, henv⟩

theorem Program.Ends.wellFormed {files : Files} {p : Program} {m m' : Machine}
    {result : Option Error} (hrun : p.Ends files m (.ended result m')) (hp : Program.WellFormed p)
    (henv : m.env.WellFormed) : m'.env.WellFormed := by
  obtain ⟨trace, ending, done, htrace, hdone, hm'⟩ := hrun.exists_done
  have hall := htrace.wellFormed henv (Task.wellFormed_ofBlock hp)
  rw [hm']
  exact henv.after fun a ha => hall a (hdone.subset ha)

/-- The namespaces that programs leave behind, read from texts and run one after another from empty
namespaces, with any files and on any sinks; each may have ended well or not. -/
inductive Env.Reached : Env → Prop where
  | empty : Env.Reached .empty
  | run {env : Env} {text : String} {p : Program} {files : Files} {sink : Sink}
      {result : Option Error} {m : Machine} (before : env.Reached)
      (hp : Program.ofText text = .ok p) (hrun : p.Ends files ⟨env, sink⟩ (.ended result m)) :
      Env.Reached m.env

theorem Env.Reached.wellFormed {env : Env} (h : env.Reached) : env.WellFormed := by
  induction h with
  | empty => exact .empty
  | run before hp hrun ih => exact hrun.wellFormed (wellFormed_of_ofText hp) ih

/-! ## Names that can be written -/

/-- The text can be written in a program, and means itself there: it has no blanks, its word is a
single operand, and the operand is the text. -/
structure Addressable (x : String) : Prop where
  unbroken : Text.Unbroken x
  lex_eq : lex ("+" ++ x ++ "+") =
    [⟨.operand, "+" ++ x ++ "+", .start⟩, endToken ("+" ++ x ++ "+").toList]
  ofLiteral_eq : Value.ofLiteral ("+" ++ x ++ "+") = .text x

theorem IsName.addressable {x : String} (h : IsName x) : Addressable x where
  unbroken := h.not_blank
  lex_eq := by
    show lex (nameWord x) = [⟨.operand, nameWord x, .start⟩, _]
    rw [lex_of_legible (legible_nameWord h.not_blank), wordToken, specifiedKind_nameWord]
    rfl
  ofLiteral_eq := Value.ofLiteral_name h

/-- The names and the text operands of a statement itself, outside its block. -/
def Stmt.names : Stmt → List String
  | .inclusion path => [path]
  | .define name _ | .call name => [name]
  | s => s.mentions

theorem Value.WellFormed.isName {v : Value} (h : v.WellFormed) : ∀ x ∈ v.name?.toList, IsName x := by
  cases v with
  | text s => exact List.forall_mem_singleton.mpr h
  | _ => simp [Value.name?]

theorem Expr.WellFormed.isName {e : Expr} (h : e.WellFormed) : ∀ x ∈ e.names, IsName x := by
  cases e with
  | operand v => exact Value.WellFormed.isName h
  | binary op left right =>
    exact List.forall_mem_append.mpr ⟨h.1.isName, h.2.isName⟩

theorem Stmt.WellFormed.isName {s : Stmt} (h : s.WellFormed) : ∀ x ∈ s.names, IsName x := by
  cases s with
  | inclusion path => exact List.forall_mem_singleton.mpr h
  | print e =>
    obtain ⟨x, rfl, hx⟩ := h
    simpa [names, mentions] using hx.isName
  | declare name init =>
    refine List.forall_mem_cons.mpr ⟨h.1, ?_⟩
    rw [List.forall_mem_flatMap]
    exact fun e he => (h.2 e (Option.mem_toList.mp he)).isName
  | forEach source item body => simpa [names, mentions] using ⟨h.1, h.2.1⟩
  | loop cond step body => exact List.forall_mem_append.mpr ⟨h.1.isName, h.2.1.isName⟩
  | branch cond body => exact h.1.isName
  | define name body => exact List.forall_mem_singleton.mpr h.1
  | call name => exact List.forall_mem_singleton.mpr h

/-- In namespaces that programs left behind, every variable and every function can be addressed from
a program, and so can every name and text in a stored function, at any depth. -/
theorem bound_names_addressable {env : Env} (henv : env.Reached) :
    (∀ x v, env.get? x = some v → Addressable x) ∧
    ∀ f body, env.function? f = some body →
      Addressable f ∧ ∀ s, body.Contains s → ∀ x ∈ s.names, Addressable x := by
  have hwf := henv.wellFormed
  refine ⟨fun x v hx => (hwf.vars x v hx).1.addressable, fun f body hf => ?_⟩
  obtain ⟨hname, hbody⟩ := hwf.functions f body hf
  refine ⟨hname.addressable, fun s hs x hx => ?_⟩
  exact ((hbody.of_contains hs).isName x hx).addressable

/-! A text that stores a function, declares a variable and then fails. -/

theorem isName_g : IsName "g" := by
  decide +kernel

theorem isName_x : IsName "x" := by
  decide +kernel

def definingTree : ProgramTree :=
  .cons (.block (.define defineWord (.ofName isName_g) stopWord)
      (.cons (.simple (.print (.operand (.ofValue (.text "a"))) stopWord)) .nil) endWord stopWord)
    (.cons (.simple (.declare declareWord (.ofName isName_x) declareWord none stopWord))
      (.cons (.simple (.call callWord (.ofName isName_f) stopWord)) .nil))

def definingText : String :=
  "** +g+ 3.\n+a+ 3.\n3.14159265 3.\n3.1 +x+ 3.1 3.\n3.1415926535 +f+ 3."

def definingProgram : Program :=
  [.define "g" [.print (some (.operand (.text "a")))], .declare "x" none, .call "f"]

def afterDefining : Env :=
  (Env.empty.defineFunction "g" [.print (some (.operand (.text "a")))]).define "x" .null

theorem afterDefining_addressable :
    afterDefining.Reached ∧ Addressable "x" ∧ Addressable "g" ∧ Addressable "a" := by
  have hp : Program.ofText definingText = .ok definingProgram := by
    have hvalue : Value.ofLiteral "+a+" = .text "a" := by decide +kernel
    refine ofText_eq_ok_iff.mpr ⟨definingTree, by decide +kernel, ?_⟩
    show [Stmt.define "g" [.print (some (.operand (Value.ofLiteral "+a+")))], _, _] = _
    rw [hvalue]
    rfl
  have hrun : Program.Ends (fun _ => .error .notFound) definingProgram ⟨.empty, .unlimited⟩
      (.ended (some ⟨.undeclaredFunction "f", none⟩) ⟨afterDefining, .unlimited⟩) :=
    ⟨Outcome.ended_ne_outOfFuel _ _, 1, rfl⟩
  have hreached : afterDefining.Reached := .run .empty hp hrun
  obtain ⟨hvars, hfunctions⟩ := bound_names_addressable hreached
  obtain ⟨hg, hbody⟩ := hfunctions "g" _ rfl
  exact ⟨hreached, hvars "x" .null rfl, hg, hbody _ (.here List.mem_cons_self) "a" (by decide)⟩

end PiScript
