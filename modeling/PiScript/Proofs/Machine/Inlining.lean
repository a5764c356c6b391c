import PiScript.Proofs.Machine.Entries

/-!
# Inclusions written out

An inclusion can be replaced by what the file holds, in a branch that is always taken, wherever it
stands. If it stands in the body of a function, the two runs store different bodies under the same
name, so the function tables are related and not equal; the variables and the output are the same at
every step.
-/

namespace PiScript

/-! ## Tables of related things -/

/-- The tables bind the same names, to related things. -/
def Bindings.Rel {α : Type} (Q : α → α → Prop) (b b' : Bindings α) : Prop :=
  List.Forall₂ (fun e e' => e.1 = e'.1 ∧ Q e.2 e'.2) b.entries b'.entries

namespace Bindings.Rel

variable {α : Type} {Q : α → α → Prop} {b b' : Bindings α}

theorem refl (hQ : ∀ v, Q v v) (b : Bindings α) : b.Rel Q b :=
  List.forall₂_same.mpr fun e _ => ⟨rfl, hQ e.2⟩

theorem names_eq (h : b.Rel Q b') : b.names = b'.names := by
  unfold Bindings.Rel at h
  unfold Bindings.names
  generalize b.entries = es, b'.entries = es' at h ⊢
  induction h with
  | nil => rfl
  | cons he _ ih => rw [List.map_cons, List.map_cons, he.1, ih]

theorem get? (h : b.Rel Q b') (name : String) : Option.Rel Q (b.get? name) (b'.get? name) := by
  unfold Bindings.Rel at h
  unfold Bindings.get?
  generalize b.entries = es, b'.entries = es' at h ⊢
  induction h with
  | nil => exact .none
  | cons he _ ih =>
    -- Both look-ups stop at the same entry, or go on behind it.
    rw [List.lookup_cons, List.lookup_cons, ← he.1]
    split
    · exact .some he.2
    · exact ih

theorem insert (h : b.Rel Q b') {v v' : α} (hv : Q v v') (name : String) :
    (b.insert name v).Rel Q (b'.insert name v') := by
  unfold Bindings.Rel at h
  show List.Forall₂ _ (insertEntry name v b.entries) (insertEntry name v' b'.entries)
  generalize b.entries = es, b'.entries = es' at h ⊢
  induction h with
  | nil => exact .cons ⟨rfl, hv⟩ .nil
  | cons he hrest ih =>
    -- The place of the new entry depends on the names only, and these are the same.
    rw [insertEntry, insertEntry, ← he.1]
    split
    · exact .cons ⟨rfl, hv⟩ (.cons he hrest)
    · split
      · exact .cons ⟨rfl, hv⟩ hrest
      · exact .cons he ih

end Bindings.Rel

/-! ## Expanded programs -/

/-- The second statement is the first with any of its inclusions, at any depth, replaced by
branches that are always taken and hold what the file holds. What comes with a file may be expanded
further. -/
inductive Stmt.Expands (files : Files) : Stmt → Stmt → Prop where
  | kept (path : String) : Stmt.Expands files (.inclusion path) (.inclusion path)
  | replaced {path : String} {body body' : Program} (hload : files.load path = .ok body)
      (h : List.Forall₂ (Stmt.Expands files) body body') :
      Stmt.Expands files (.inclusion path) (.branch (.operand (.truth true)) body')
  | print (e : Option Expr) : Stmt.Expands files (.print e) (.print e)
  | declare (name : String) (init : Option Expr) :
      Stmt.Expands files (.declare name init) (.declare name init)
  | forEach (source item : String) {body body' : Program}
      (h : List.Forall₂ (Stmt.Expands files) body body') :
      Stmt.Expands files (.forEach source item body) (.forEach source item body')
  | loop (cond step : Expr) {body body' : Program}
      (h : List.Forall₂ (Stmt.Expands files) body body') :
      Stmt.Expands files (.loop cond step body) (.loop cond step body')
  | branch (cond : Expr) {body body' : Program}
      (h : List.Forall₂ (Stmt.Expands files) body body') :
      Stmt.Expands files (.branch cond body) (.branch cond body')
  | define (name : String) {body body' : Program}
      (h : List.Forall₂ (Stmt.Expands files) body body') :
      Stmt.Expands files (.define name body) (.define name body')
  | call (name : String) : Stmt.Expands files (.call name) (.call name)

/-- Statement by statement, the second program is the first with inclusions replaced. -/
def Program.Expands (files : Files) (p p' : Program) : Prop :=
  List.Forall₂ (Stmt.Expands files) p p'

mutual

theorem Stmt.expands_self (files : Files) (s : Stmt) : s.Expands files s := by
  match s with
  | .inclusion path => exact .kept path
  | .print e => exact .print e
  | .declare name init => exact .declare name init
  | .forEach source item body => exact .forEach source item (Program.expands_self files body)
  | .loop cond step body => exact .loop cond step (Program.expands_self files body)
  | .branch cond body => exact .branch cond (Program.expands_self files body)
  | .define name body => exact .define name (Program.expands_self files body)
  | .call name => exact .call name

theorem Program.expands_self (files : Files) (p : List Stmt) :
    List.Forall₂ (Stmt.Expands files) p p := by
  match p with
  | [] => exact .nil
  | s :: rest => exact .cons (Stmt.expands_self files s) (Program.expands_self files rest)

end

/-- With their inclusions read, a statement and its expansion differ in their blocks only. -/
theorem Stmt.Expands.alike {files : Files} {s s' : Stmt} (h : s.Expands files s') :
    Stmt.Alike files (Stmt.Expands files) (s.opened files) (s'.opened files) := by
  cases h with
  | kept path =>
    exact Stmt.alike_self (fun t _ => Stmt.expands_self files t)
      fun _ t _ => Stmt.expands_self files t
  | replaced hload h =>
    rw [Stmt.opened, hload]
    exact .branch _ h
  | print e => exact .print e
  | declare name init => exact .declare name init
  | forEach source item h => exact .forEach source item h
  | loop cond step h => exact .loop cond step h
  | branch cond h => exact .branch cond h
  | define name h => exact .define name h
  | call name => exact .call name

/-! ## Runs -/

/-- The machines differ only in functions, whose bodies on one side expand those on the other. -/
structure Machine.Expands (files : Files) (m m' : Machine) : Prop where
  sink_eq : m.sink = m'.sink
  vars_eq : m.env.vars = m'.env.vars
  functions : m.env.functions.Rel (Program.Expands files) m'.env.functions

theorem Machine.lockstep_expands (files : Files) :
    Lockstep files (fun _ => True) (Stmt.Expands files) (Machine.Expands files) where
  alike hs := hs.alike
  mentions _ _ _ := trivial
  get?_eq h x _ := congrArg (·.get? x) h.vars_eq
  function?_rel h f := h.functions.get? f
  define h x v := ⟨h.sink_eq, congrArg (·.insert x v) h.vars_eq, h.functions⟩
  remove h x := ⟨h.sink_eq, congrArg (·.erase x) h.vars_eq, h.functions⟩
  store h hbody f := ⟨h.sink_eq, h.vars_eq, h.functions.insert hbody f⟩
  printLine h text :=
    Machine.printLine_below h.sink_eq (fun _ => ⟨rfl, h.vars_eq, h.functions⟩) text

/-- A program and its expansion run alike from the same machine: both go on forever, or both end
with the same result, the same output, the same variables and the same names of functions. -/
theorem expanded_inclusions_run_alike {files : Files} {p p' : Program}
    (h : Program.Expands files p p') (m : Machine) :
    Program.RunAlike files
      (fun m₁ m₁' => m₁.sink = m₁'.sink ∧ m₁.env.vars = m₁'.env.vars ∧
        m₁.env.functions.names = m₁'.env.functions.names) p p' m m := by
  have hstart : Machine.Expands files m m :=
    ⟨rfl, rfl, Bindings.Rel.refl (Program.expands_self files) _⟩
  have halike := (Machine.lockstep_expands files).runAlike
    (fun m m' h => congrArg Sink.flush h.sink_eq) h hstart
  exact halike.imp fun m₁ m₁' h => ⟨h.sink_eq, h.vars_eq, h.functions.names_eq⟩

def printFiles : Files
  | "lib" => .ok "+a+ 3."
  | _ => .error .notFound

theorem load_printFiles :
    printFiles.load "lib" = .ok [.print (some (.operand (.text "a")))] := by
  have hvalue : Value.ofLiteral "+a+" = .text "a" := by decide +kernel
  show Program.ofText "+a+ 3." = _
  refine Grammar.ofText_eq_ok_iff.mpr ⟨printTree, by decide +kernel, ?_⟩
  show [Stmt.print (some (.operand (Value.ofLiteral "+a+")))] = _
  rw [hvalue]

def includingFunction : Program :=
  [.define "f" [.inclusion "lib"], .call "f"]

theorem includingFunction_runs_as_expanded :
    Program.Expands printFiles includingFunction
      [.define "f" [.branch (.operand (.truth true)) [.print (some (.operand (.text "a")))]],
        .call "f"] ∧
    ∃ m, includingFunction.Ends printFiles {} (.ended none m) ∧
      m.sink.written = "a\n\n\n\n".toUTF8 ∧ m.env.functions.names = ["f"] := by
  have hexpands : Program.Expands printFiles includingFunction
      [.define "f" [.branch (.operand (.truth true)) [.print (some (.operand (.text "a")))]],
        .call "f"] :=
    .cons (.define "f" (.cons (.replaced load_printFiles (Program.expands_self _ _)) .nil))
      (.cons (.call "f") .nil)
  have hrun : ∃ m, Program.Ends printFiles
      [.define "f" [.branch (.operand (.truth true)) [.print (some (.operand (.text "a")))]],
        .call "f"] {} (.ended none m) ∧
      m.sink.written = "a\n\n\n\n".toUTF8 ∧ m.env.functions.names = ["f"] :=
    ⟨_, ⟨Outcome.ended_ne_outOfFuel _ _, 3, rfl⟩, by decide +kernel, rfl⟩
  obtain ⟨m', hrun', hwritten, hnames⟩ := hrun
  obtain ⟨m, hends, hsink, -, hfunctions⟩ :=
    (expanded_inclusions_run_alike hexpands {}).2 none m' hrun'
  refine ⟨hexpands, m, hends, ?_, ?_⟩
  · rw [hsink, hwritten]
  · rw [hfunctions, hnames]

end PiScript
