import Mathlib.Data.List.Forall2
import PiScript.Machine

/-!
# Two runs side by side

Running a program asks a machine for the variables that its statements mention and for functions,
changes its namespaces and prints, and does nothing else to it. So a relation between machines that
survives these steps survives whole runs of programs whose statements correspond to each other, and
both runs end alike unless one of them runs out of fuel (`Lockstep.exec_below`).

The second run may have more fuel than the first: with equality for the relation this says that
more fuel never changes how a run ends.
-/

namespace PiScript

/-! ## How runs end -/

/-- The outcome of a run that ended, with an error or without one. -/
def Outcome.ended : Option Error → Machine → Outcome
  | none, m => .done m
  | some e, m => .failed e m

theorem Outcome.ended_inj {r r' : Option Error} {m m' : Machine}
    (h : Outcome.ended r m = .ended r' m') : r = r' ∧ m = m' := by
  cases r <;> cases r' <;> cases h <;> exact ⟨rfl, rfl⟩

theorem Outcome.ended_ne_outOfFuel (r : Option Error) (m : Machine) :
    Outcome.ended r m ≠ .outOfFuel := by
  cases r <;> simp [Outcome.ended]

/-- The first run is out of fuel, or both ended alike and left related machines. -/
inductive Outcome.Below (R : Machine → Machine → Prop) : Outcome → Outcome → Prop where
  | outOfFuel (o : Outcome) : Outcome.Below R .outOfFuel o
  | done {m m' : Machine} (h : R m m') : Outcome.Below R (.done m) (.done m')
  | failed (e : Error) {m m' : Machine} (h : R m m') :
      Outcome.Below R (.failed e m) (.failed e m')

open Outcome (Below)

theorem Outcome.Below.andThen {R : Machine → Machine → Prop} {o o' : Outcome}
    {f g : Machine → Outcome} (h : Below R o o') (hf : ∀ m m', R m m' → Below R (f m) (g m')) :
    Below R (o.andThen f) (o'.andThen g) := by
  cases h with
  | outOfFuel o => exact .outOfFuel _
  | done h => exact hf _ _ h
  | failed e h => exact .failed e h

theorem Outcome.Below.refl {R : Machine → Machine → Prop} (hrefl : ∀ m, R m m) (o : Outcome) :
    Below R o o := by
  cases o with
  | done m => exact .done (hrefl m)
  | failed e m => exact .failed e (hrefl m)
  | outOfFuel => exact .outOfFuel _

theorem Outcome.Below.eq {o o' : Outcome} (h : Below Eq o o') (hne : o ≠ .outOfFuel) :
    o' = o := by
  cases h with
  | outOfFuel o => exact absurd rfl hne
  | done h => rw [h]
  | failed e h => rw [h]

theorem Outcome.Below.flip {R : Machine → Machine → Prop} {o o' : Outcome} (h : Below R o o')
    (hne : o ≠ .outOfFuel) : Below (flip R) o' o := by
  cases h with
  | outOfFuel o => exact absurd rfl hne
  | done h => exact .done h
  | failed e h => exact .failed e h

/-- Below a run that ended stands one that ended with the same result. -/
theorem Outcome.Below.exists_ended {R : Machine → Machine → Prop} {r : Option Error}
    {m : Machine} {o : Outcome} (h : Below R (.ended r m) o) : ∃ m', o = .ended r m' ∧ R m m' := by
  cases r with
  | none =>
    cases h with
    | done h => exact ⟨_, rfl, h⟩
  | some e =>
    cases h with
    | failed e h => exact ⟨_, rfl, h⟩

theorem Program.flush_below {R : Machine → Machine → Prop}
    (hflush : ∀ m m', R m m' → m.sink.flush = m'.sink.flush) {o o' : Outcome} (h : Below R o o') :
    Below R (flush o) (flush o') := by
  cases h with
  | outOfFuel o => exact .outOfFuel _
  | @done m m' h =>
    rw [flush, flush, ← hflush m m' h]
    cases m.sink.flush with
    | none => exact .done h
    | some e => exact .failed _ h
  | @failed e m m' h =>
    rw [flush, flush, ← hflush m m' h]
    cases m.sink.flush with
    | none => exact .failed e h
    | some e => exact .failed _ h

theorem Outcome.andThen_assoc (o : Outcome) (f g : Machine → Outcome) :
    (o.andThen f).andThen g = o.andThen fun m => (f m).andThen g := by
  cases o <;> rfl

theorem Machine.printLine_ne_outOfFuel (m : Machine) (text : String) :
    m.printLine text ≠ .outOfFuel := by
  unfold Machine.printLine
  split <;> simp

theorem Machine.printLine_below {R : Machine → Machine → Prop} {m m' : Machine}
    (hsink : m.sink = m'.sink)
    (hset : ∀ sink, R { m with sink := sink } { m' with sink := sink }) (text : String) :
    Below R (m.printLine text) (m'.printLine text) := by
  unfold Machine.printLine
  rw [← hsink]
  cases m.sink.write (text ++ "\n") with
  | mk sink e =>
    cases e with
    | none => exact .done (hset sink)
    | some e => exact .failed _ (hset sink)

/-! ## Statements one behind the other -/

/-- Runs statements one after another, without an empty line at the end. -/
def runAll (exec : Stmt → Machine → Outcome) : Program → Machine → Outcome
  | [], m => .done m
  | s :: rest, m => (exec s m).andThen (runAll exec rest)

theorem runBlock_eq (exec : Stmt → Machine → Outcome) (p : Program) (m : Machine) :
    runBlock exec p m = (runAll exec p m).andThen fun m => m.printLine "" := by
  induction p generalizing m with
  | nil => rfl
  | cons s rest ih =>
    rw [runBlock, runAll, Outcome.andThen_assoc]
    congr 1
    funext m
    exact ih m

theorem runAll_append (exec : Stmt → Machine → Outcome) (p q : Program) (m : Machine) :
    runAll exec (p ++ q) m = (runAll exec p m).andThen (runAll exec q) := by
  induction p generalizing m with
  | nil => rfl
  | cons s rest ih =>
    rw [List.cons_append, runAll, runAll, Outcome.andThen_assoc]
    congr 1
    funext m
    exact ih m

/-! ## What a statement reads -/

def Value.name? : Value → Option String
  | .text s => some s
  | _ => none

def Expr.names : Expr → List String
  | .operand v => v.name?.toList
  | .binary _ left right => left.name?.toList ++ right.name?.toList

/-- The variables that a statement mentions itself, outside its block. -/
def Stmt.mentions : Stmt → List String
  | .print e => e.toList.flatMap Expr.names
  | .declare name init => name :: init.toList.flatMap Expr.names
  | .forEach source item _ => [source, item]
  | .loop cond step _ => cond.names ++ step.names
  | .branch cond _ => cond.names
  | .inclusion _ | .define _ _ | .call _ => []

theorem Env.resolve_congr {env env' : Env} {v : Value}
    (h : ∀ x ∈ v.name?.toList, env.get? x = env'.get? x) : env.resolve v = env'.resolve v := by
  cases v with
  | text s =>
    have hs := h s (by simp [Value.name?])
    rw [Env.resolve, Env.resolve, hs]
  | _ => rfl

/-- An expression has the same value wherever its names are bound alike. -/
theorem Expr.eval_congr {env env' : Env} {e : Expr}
    (h : ∀ x ∈ e.names, env.get? x = env'.get? x) : e.eval env = e.eval env' := by
  cases e with
  | operand v => rw [eval, eval, Env.resolve_congr h]
  | binary op left right =>
    rw [names, List.forall_mem_append] at h
    rw [eval, eval, Env.resolve_congr h.1, Env.resolve_congr h.2]

theorem Expr.evalCondition_congr {env env' : Env} {e : Expr}
    (h : ∀ x ∈ e.names, env.get? x = env'.get? x) : e.evalCondition env = e.evalCondition env' := by
  rw [evalCondition, evalCondition, eval_congr h]

/-! ## Corresponding statements -/

def Stmt.block : Stmt → Program
  | .forEach _ _ body | .loop _ _ body | .branch _ body | .define _ body => body
  | .inclusion _ | .print _ | .declare _ _ | .call _ => []

/-- A statement with its inclusion read: including a file that can be read is a branch that is
always taken. -/
def Stmt.opened (files : Files) : Stmt → Stmt
  | .inclusion path =>
    match files.load path with
    | .ok body => .branch (.operand (.truth true)) body
    | .error _ => .inclusion path
  | s => s

theorem Stmt.exec_opened (files : Files) (fuel : Nat) (s : Stmt) (m : Machine) :
    Stmt.exec files fuel (s.opened files) m = Stmt.exec files fuel s m := by
  cases fuel with
  | zero => simp only [Stmt.exec]
  | succ fuel =>
    cases s with
    | inclusion path =>
      simp only [Stmt.opened, Stmt.exec]
      cases hload : files.load path with
      | error e => simp only [hload]
      | ok body => rfl
    | _ => rfl

theorem Stmt.mentions_opened (files : Files) (s : Stmt) :
    (s.opened files).mentions = s.mentions := by
  cases s with
  | inclusion path =>
    rw [Stmt.opened]
    cases files.load path <;> rfl
  | _ => rfl

/-- The statements are the same but for their blocks, whose statements correspond by `S`. Only
inclusions of files that cannot be read are left. -/
inductive Stmt.Alike (files : Files) (S : Stmt → Stmt → Prop) : Stmt → Stmt → Prop where
  | unreadable {path : String} {e : Error} (h : files.load path = .error e) :
      Stmt.Alike files S (.inclusion path) (.inclusion path)
  | print (e : Option Expr) : Stmt.Alike files S (.print e) (.print e)
  | declare (name : String) (init : Option Expr) :
      Stmt.Alike files S (.declare name init) (.declare name init)
  | forEach (source item : String) {body body' : Program} (h : List.Forall₂ S body body') :
      Stmt.Alike files S (.forEach source item body) (.forEach source item body')
  | loop (cond step : Expr) {body body' : Program} (h : List.Forall₂ S body body') :
      Stmt.Alike files S (.loop cond step body) (.loop cond step body')
  | branch (cond : Expr) {body body' : Program} (h : List.Forall₂ S body body') :
      Stmt.Alike files S (.branch cond body) (.branch cond body')
  | define (name : String) {body body' : Program} (h : List.Forall₂ S body body') :
      Stmt.Alike files S (.define name body) (.define name body')
  | call (name : String) : Stmt.Alike files S (.call name) (.call name)

theorem Stmt.Alike.flip {files : Files} {S : Stmt → Stmt → Prop} {s s' : Stmt}
    (h : s.Alike files S s') : s'.Alike files (flip S) s := by
  cases h with
  | unreadable h => exact .unreadable h
  | print e => exact .print e
  | declare name init => exact .declare name init
  | forEach source item h => exact .forEach source item (List.Forall₂.flip h)
  | loop cond step h => exact .loop cond step (List.Forall₂.flip h)
  | branch cond h => exact .branch cond (List.Forall₂.flip h)
  | define name h => exact .define name (List.Forall₂.flip h)
  | call name => exact .call name

theorem Stmt.Alike.mentions_eq {files : Files} {S : Stmt → Stmt → Prop} {s s' : Stmt}
    (h : s.Alike files S s') : s.mentions = s'.mentions := by
  cases h <;> rfl

/-- A statement is alike to itself if the statements it can come to correspond to themselves. -/
theorem Stmt.alike_self {files : Files} {S : Stmt → Stmt → Prop} {s : Stmt}
    (hblock : ∀ t ∈ s.block, S t t)
    (hfile : ∀ {path body}, files.load path = .ok body → ∀ t ∈ body, S t t) :
    Stmt.Alike files S (s.opened files) (s.opened files) := by
  have hbody : List.Forall₂ S s.block s.block := List.forall₂_same.mpr hblock
  cases s with
  | inclusion path =>
    rw [Stmt.opened]
    cases hload : files.load path with
    | error e => exact .unreadable hload
    | ok body => exact .branch _ (List.forall₂_same.mpr (hfile hload))
  | print e => exact .print e
  | declare name init => exact .declare name init
  | forEach source item body => exact .forEach source item hbody
  | loop cond step body => exact .loop cond step hbody
  | branch cond body => exact .branch cond hbody
  | define name body => exact .define name hbody
  | call name => exact .call name

/-- Everything that two runs have to keep in order to stay together. Statements that correspond by
`S` are alike and mention variables of `V` only; machines related by `R` agree on these variables,
store corresponding functions, and stay related if both take the same step. -/
structure Lockstep (files : Files) (V : String → Prop) (S : Stmt → Stmt → Prop)
    (R : Machine → Machine → Prop) : Prop where
  alike : ∀ {s s' : Stmt}, S s s' → Stmt.Alike files S (s.opened files) (s'.opened files)
  mentions : ∀ {s s' : Stmt}, S s s' → ∀ x ∈ s.mentions, V x
  get?_eq : ∀ {m m' : Machine}, R m m' → ∀ x, V x → m.env.get? x = m'.env.get? x
  function?_rel : ∀ {m m' : Machine}, R m m' → ∀ f,
    Option.Rel (List.Forall₂ S) (m.env.function? f) (m'.env.function? f)
  define : ∀ {m m' : Machine}, R m m' → ∀ x v, R (m.define x v) (m'.define x v)
  remove : ∀ {m m' : Machine}, R m m' → ∀ x,
    R { m with env := m.env.remove x } { m' with env := m'.env.remove x }
  store : ∀ {m m' : Machine} {body body' : Program}, R m m' → List.Forall₂ S body body' → ∀ f,
    R { m with env := m.env.defineFunction f body } { m' with env := m'.env.defineFunction f body' }
  printLine : ∀ {m m' : Machine}, R m m' → ∀ text,
    Below R (m.printLine text) (m'.printLine text)

/-! ## Blocks and repetition -/

section

variable {S : Stmt → Stmt → Prop} {R : Machine → Machine → Prop}

theorem runAll_below {exec exec' : Stmt → Machine → Outcome}
    (hexec : ∀ s s' m m', S s s' → R m m' → Below R (exec s m) (exec' s' m')) {p p' : Program}
    (hp : List.Forall₂ S p p') {m m' : Machine} (h : R m m') :
    Below R (runAll exec p m) (runAll exec' p' m') := by
  induction hp generalizing m m' with
  | nil => exact .done h
  | cons hs _ ih => exact (hexec _ _ m m' hs h).andThen fun m m' h => ih h

theorem Items.run_below {round round' : Value → Machine → Outcome}
    (hround : ∀ v m m', R m m' → Below R (round v m) (round' v m')) (items : Items)
    (m m' : Machine) (h : R m m') : Below R (items.run round m) (items.run round' m') := by
  cases items with
  | numbers first count =>
    show Below R (runNumbers round count first m) (runNumbers round' count first m')
    induction count generalizing first m m' with
    | zero => exact .done h
    | succ count ih => exact (hround _ m m' h).andThen fun m m' h => ih m m' h (first + 1)
  | chars cs =>
    show Below R (runChars round cs m) (runChars round' cs m')
    induction cs generalizing m m' with
    | nil => exact .done h
    | cons c cs ih => exact (hround _ m m' h).andThen ih

theorem runLoop_below {round round' : Machine → Outcome}
    (hround : ∀ m m', R m m' → Below R (round m) (round' m')) {cond : Env → Except Cause Bool}
    (hcond : ∀ m m', R m m' → cond m.env = cond m'.env) {fuel fuel' : Nat} (hfuel : fuel ≤ fuel')
    (m m' : Machine) (h : R m m') :
    Below R (runLoop cond round fuel m) (runLoop cond round' fuel' m') := by
  induction fuel generalizing fuel' m m' with
  | zero => exact .outOfFuel _
  | succ fuel ih =>
    obtain ⟨fuel', rfl⟩ : ∃ k, fuel' = k + 1 := ⟨fuel' - 1, by omega⟩
    unfold runLoop
    rw [← hcond m m' h]
    cases cond m.env with
    | error cause => exact .failed _ h
    | ok b =>
      cases b with
      | false => exact .done h
      | true => exact (hround m m' h).andThen (ih (by omega))

end

namespace Lockstep

variable {files : Files} {V : String → Prop} {S : Stmt → Stmt → Prop}
  {R : Machine → Machine → Prop}

theorem runBlock_below (hR : Lockstep files V S R) {exec exec' : Stmt → Machine → Outcome}
    (hexec : ∀ s s' m m', S s s' → R m m' → Below R (exec s m) (exec' s' m')) {p p' : Program}
    (hp : List.Forall₂ S p p') {m m' : Machine} (h : R m m') :
    Below R (runBlock exec p m) (runBlock exec' p' m') := by
  rw [runBlock_eq, runBlock_eq]
  exact (runAll_below hexec hp h).andThen fun m m' h => hR.printLine h ""

/-! ## Statements -/

theorem eval_eq (hR : Lockstep files V S R) {e : Expr} (he : ∀ x ∈ e.names, V x)
    {m m' : Machine} (h : R m m') : e.eval m.env = e.eval m'.env :=
  Expr.eval_congr fun x hx => hR.get?_eq h x (he x hx)

theorem step_below (hR : Lockstep files V S R) {e : Expr} (he : ∀ x ∈ e.names, V x)
    {m m' : Machine} (h : R m m') : Below R (m.step e) (m'.step e) := by
  unfold Machine.step
  cases e.stepTarget with
  | error cause => exact .failed _ h
  | ok name =>
    rw [← hR.eval_eq he h]
    cases e.eval m.env with
    | error cause => exact .failed _ h
    | ok v => exact .done (hR.define h name v)

/-- One statement, with the statements inside it run on less fuel. -/
theorem exec_below_succ (hR : Lockstep files V S R) {fuel fuel' : Nat} (hfuel : fuel ≤ fuel')
    (hexec : ∀ s s' m m', S s s' → R m m' →
      Below R (Stmt.exec files fuel s m) (Stmt.exec files fuel' s' m'))
    {s s' : Stmt} (hs : S s s') {m m' : Machine} (h : R m m') :
    Below R (Stmt.exec files (fuel + 1) s m) (Stmt.exec files (fuel' + 1) s' m') := by
  have halike := hR.alike hs
  have hnames := hR.mentions hs
  rw [← Stmt.mentions_opened files] at hnames
  rw [← Stmt.exec_opened files _ s, ← Stmt.exec_opened files _ s']
  generalize s.opened files = t, s'.opened files = t' at halike hnames
  have hblock {body body' : Program} (hbody : List.Forall₂ S body body') {m m' : Machine}
      (h : R m m') := hR.runBlock_below hexec hbody h
  cases halike with
  | unreadable hload =>
    simp only [Stmt.exec, hload]
    exact .failed _ h
  | print e =>
    cases e with
    | none => exact hR.printLine h ""
    | some e =>
      have heval := hR.eval_eq (e := e) (by simpa [Stmt.mentions] using hnames) h
      simp only [Stmt.exec, ← heval]
      cases e.eval m.env with
      | error cause => exact .failed _ h
      | ok v => exact hR.printLine h v.render
  | declare name e =>
    cases e with
    | none => exact .done (hR.define h name .null)
    | some e =>
      have heval := hR.eval_eq (e := e) (fun x hx => hnames x (by simp [Stmt.mentions, hx])) h
      simp only [Stmt.exec, ← heval]
      cases e.eval m.env with
      | error cause => exact .failed _ h
      | ok v => exact .done (hR.define h name v)
  | forEach source item hbody =>
    have hsource := hR.get?_eq h source (hnames source (by simp [Stmt.mentions]))
    simp only [Stmt.exec, ← hsource]
    cases m.env.get? source with
    | none => exact .failed _ h
    | some v =>
      simp only
      cases Items.ofValue? v with
      | none => exact .failed _ h
      | some items =>
        -- Both machines bind the same items, and unbind the variable behind the last round.
        refine Below.andThen (Items.run_below ?_ items m m' h) ?_
        · intro v m m' h
          exact hblock hbody (hR.define h item v)
        · intro m m' h
          exact .done (hR.remove h item)
  | loop cond step hbody =>
    rw [Stmt.mentions, List.forall_mem_append] at hnames
    simp only [Stmt.exec]
    -- The rounds are counted by the fuel, of which the second run has at least as much.
    refine runLoop_below ?_ ?_ hfuel m m' h
    · intro m m' h
      exact (hblock hbody h).andThen fun m m' h => hR.step_below hnames.2 h
    · intro m m' h
      exact Expr.evalCondition_congr fun x hx => hR.get?_eq h x (hnames.1 x hx)
  | branch cond hbody =>
    simp only [Stmt.exec, ← hR.eval_eq hnames h]
    cases cond.eval m.env with
    | error cause => exact .failed _ h
    | ok v =>
      cases v with
      | truth b =>
        cases b with
        | true => exact hblock hbody h
        | false => exact .done h
      | _ => exact .failed _ h
  | define name hbody => exact .done (hR.store h hbody name)
  | call name =>
    have hfunction := hR.function?_rel h name
    simp only [Stmt.exec]
    generalize m.env.function? name = b, m'.env.function? name = b' at hfunction
    cases hfunction with
    | none => exact .failed _ h
    | some hbody => exact hblock hbody h

/-- Corresponding statements keep machines related, also if the second run has more fuel. -/
theorem exec_below (hR : Lockstep files V S R) {fuel fuel' : Nat} (hfuel : fuel ≤ fuel')
    (s s' : Stmt) (m m' : Machine) (hs : S s s') (h : R m m') :
    Below R (Stmt.exec files fuel s m) (Stmt.exec files fuel' s' m') := by
  -- On the fuel of the first run: without any it is below every other run.
  induction fuel generalizing fuel' s s' m m' with
  | zero => exact .outOfFuel _
  | succ fuel ih =>
    obtain ⟨fuel', rfl⟩ : ∃ k, fuel' = k + 1 := ⟨fuel' - 1, by omega⟩
    exact hR.exec_below_succ (by omega) (ih (by omega)) hs h

/-- The first run can also be looked at from the second. -/
theorem flip (hR : Lockstep files V S R) : Lockstep files V (flip S) (flip R) where
  alike hs := (hR.alike hs).flip
  mentions {s s'} hs := by
    have hmentions := (hR.alike hs).mentions_eq
    rw [Stmt.mentions_opened, Stmt.mentions_opened] at hmentions
    rw [← hmentions]
    exact hR.mentions hs
  get?_eq h x hx := (hR.get?_eq h x hx).symm
  function?_rel {m m'} h f := by
    have hrel := hR.function?_rel h f
    generalize m.env.function? f = b, m'.env.function? f = b' at hrel
    cases hrel with
    | none => exact .none
    | some hbody => exact .some (List.Forall₂.flip hbody)
  define h := hR.define h
  remove h := hR.remove h
  store h hbody := hR.store h (List.Forall₂.flip hbody)
  printLine {m m'} h text := (hR.printLine h text).flip (m'.printLine_ne_outOfFuel text)

end Lockstep

/-! ## The same statements on machines with the same namespaces -/

/-- Related machines have the same namespaces, and stay related if both change them or print. -/
structure Machine.Respected (R : Machine → Machine → Prop) : Prop where
  env_eq : ∀ {m m' : Machine}, R m m' → m.env = m'.env
  setEnv : ∀ {m m' : Machine} (env : Env), R m m' → R { m with env := env } { m' with env := env }
  printLine : ∀ {m m' : Machine} (text : String), R m m' →
    Outcome.Below R (m.printLine text) (m'.printLine text)

theorem Machine.Respected.lockstep {R : Machine → Machine → Prop} (hR : Machine.Respected R)
    (files : Files) : Lockstep files (fun _ => True) Eq R where
  alike := by
    rintro s _ rfl
    exact Stmt.alike_self (fun _ _ => rfl) fun _ _ _ => rfl
  mentions _ _ _ := trivial
  get?_eq h x _ := by rw [hR.env_eq h]
  function?_rel {m m'} h f := by
    rw [hR.env_eq h]
    cases m'.env.function? f with
    | none => exact .none
    | some body => exact .some (List.forall₂_same.mpr fun _ _ => rfl)
  define {m m'} h x v := by
    have hset := hR.setEnv (m.env.define x v) h
    rw [Machine.define, Machine.define, ← hR.env_eq h]
    exact hset
  remove {m m'} h x := by
    rw [← hR.env_eq h]
    exact hR.setEnv (m.env.remove x) h
  store {m m' body body'} h hbody f := by
    rw [List.forall₂_eq_eq_eq] at hbody
    rw [← hR.env_eq h, hbody]
    exact hR.setEnv (m.env.defineFunction f body') h
  printLine h text := hR.printLine text h

theorem Machine.Respected.runAll_below {R : Machine → Machine → Prop} (hR : Machine.Respected R)
    (files : Files) {fuel fuel' : Nat} (hfuel : fuel ≤ fuel') (p : Program) {m m' : Machine}
    (h : R m m') :
    Below R (runAll (Stmt.exec files fuel) p m) (runAll (Stmt.exec files fuel') p m') :=
  PiScript.runAll_below ((hR.lockstep files).exec_below hfuel)
    (List.forall₂_same.mpr fun _ _ => rfl) h

/-! ## More fuel -/

theorem Machine.respected_eq : Machine.Respected Eq where
  env_eq h := by rw [h]
  setEnv env h := by rw [h]
  printLine text h := by
    rw [h]
    exact Below.refl (fun _ => rfl) _

/-- More fuel does not change how statements end. -/
theorem runAll_of_le {files : Files} {fuel fuel' : Nat} (hfuel : fuel ≤ fuel') {p : Program}
    {m : Machine} (hne : runAll (Stmt.exec files fuel) p m ≠ .outOfFuel) :
    runAll (Stmt.exec files fuel') p m = runAll (Stmt.exec files fuel) p m :=
  (Machine.respected_eq.runAll_below files hfuel p rfl).eq hne

theorem runBlock_of_le {files : Files} {fuel fuel' : Nat} (hfuel : fuel ≤ fuel') {p : Program}
    {m : Machine} (hne : runBlock (Stmt.exec files fuel) p m ≠ .outOfFuel) :
    runBlock (Stmt.exec files fuel') p m = runBlock (Stmt.exec files fuel) p m := by
  have hall : runAll (Stmt.exec files fuel) p m ≠ .outOfFuel := by
    intro h
    apply hne
    rw [runBlock_eq, h]
    rfl
  rw [runBlock_eq, runBlock_eq, runAll_of_le hfuel hall]

namespace Program

/-- Running the program ends as the outcome says, given enough fuel. -/
def Ends (files : Files) (p : Program) (m : Machine) (o : Outcome) : Prop :=
  o ≠ .outOfFuel ∧ ∃ fuel, p.run files fuel m = o

theorem run_of_le {files : Files} {fuel fuel' : Nat} (hfuel : fuel ≤ fuel') {p : Program}
    {m : Machine} (hne : p.run files fuel m ≠ .outOfFuel) :
    p.run files fuel' m = p.run files fuel m := by
  have hblock : runBlock (Stmt.exec files fuel) p m ≠ .outOfFuel := by
    intro h
    apply hne
    rw [run, h]
    rfl
  rw [run, run, runBlock_of_le hfuel hblock]

theorem Ends.unique {files : Files} {p : Program} {m : Machine} {o o' : Outcome}
    (h : p.Ends files m o) (h' : p.Ends files m o') : o = o' := by
  -- Both runs end in the same way on the larger amount of fuel.
  obtain ⟨hne, fuel, rfl⟩ := h
  obtain ⟨hne', fuel', rfl⟩ := h'
  rw [← run_of_le (Nat.le_max_left fuel fuel') hne, run_of_le (Nat.le_max_right fuel fuel') hne']

/-- The runs of two programs both go on forever, or both end, with the same result and related
machines. -/
def RunAlike (files : Files) (R : Machine → Machine → Prop) (p p' : Program) (m m' : Machine) :
    Prop :=
  (∀ result m₁, p.Ends files m (.ended result m₁) →
    ∃ m₁', p'.Ends files m' (.ended result m₁') ∧ R m₁ m₁') ∧
  ∀ result m₁', p'.Ends files m' (.ended result m₁') →
    ∃ m₁, p.Ends files m (.ended result m₁) ∧ R m₁ m₁'

theorem RunAlike.imp {files : Files} {R Q : Machine → Machine → Prop} {p p' : Program}
    {m m' : Machine} (h : RunAlike files R p p' m m') (hRQ : ∀ m m', R m m' → Q m m') :
    RunAlike files Q p p' m m' := by
  constructor
  · intro result m₁ hends
    obtain ⟨m₁', hends', hR⟩ := h.1 result m₁ hends
    exact ⟨m₁', hends', hRQ _ _ hR⟩
  · intro result m₁' hends
    obtain ⟨m₁, hends', hR⟩ := h.2 result m₁' hends
    exact ⟨m₁, hends', hRQ _ _ hR⟩

end Program

namespace Lockstep

variable {files : Files} {V : String → Prop} {S : Stmt → Stmt → Prop}
  {R : Machine → Machine → Prop} {p p' : Program} {m m' : Machine}

theorem exists_ends (hR : Lockstep files V S R)
    (hflush : ∀ m m', R m m' → m.sink.flush = m'.sink.flush) (hp : List.Forall₂ S p p')
    (h : R m m') {result : Option Error} {m₁ : Machine}
    (hends : p.Ends files m (.ended result m₁)) :
    ∃ m₁', p'.Ends files m' (.ended result m₁') ∧ R m₁ m₁' := by
  obtain ⟨-, fuel, hrun⟩ := hends
  have hbelow := Program.flush_below hflush
    (hR.runBlock_below (hR.exec_below (Nat.le_refl fuel)) hp h)
  rw [← Program.run, hrun] at hbelow
  obtain ⟨m₁', hrun', h₁⟩ := hbelow.exists_ended
  exact ⟨m₁', ⟨Outcome.ended_ne_outOfFuel _ _, fuel, hrun'⟩, h₁⟩

/-- Corresponding programs run alike from related machines. -/
theorem runAlike (hR : Lockstep files V S R)
    (hflush : ∀ m m', R m m' → m.sink.flush = m'.sink.flush) (hp : List.Forall₂ S p p')
    (h : R m m') : Program.RunAlike files R p p' m m' := by
  constructor
  · intro result m₁ hends
    exact hR.exists_ends hflush hp h hends
  · intro result m₁' hends
    exact hR.flip.exists_ends (fun m m' h => (hflush m' m h).symm) (List.Forall₂.flip hp) h hends

end Lockstep

end PiScript
