import PiScript.Proofs.Machine.Simulation

/-!
# The effects of a run

Whatever a run does to a machine is a list of effects: it binds and unbinds variables, stores
functions and prints lines. Playing such a list out on a machine stops at the first line that its
sink refuses. Every effect is the work of some statement of a given body of code, provided that the
code holds the program, the stored functions and the files.
-/

namespace PiScript

inductive Effect where
  | bind (name : String) (v : Value)
  | unbind (name : String)
  | store (name : String) (body : Program)
  | line (text : String)

namespace Effect

def onEnv (env : Env) : Effect → Env
  | .bind name v => env.define name v
  | .unbind name => env.remove name
  | .store name body => env.defineFunction name body
  | .line _ => env

/-- An effect on a machine. Only a line can fail. -/
def on (m : Machine) : Effect → Outcome
  | .line text => m.printLine text
  | a => .done { m with env := a.onEnv m.env }

end Effect

/-- Flushing leaves the machine alone and can only replace the result. -/
theorem Program.flush_ended (r : Option Error) (m : Machine) :
    flush (.ended r m) =
      .ended (match m.sink.flush with | none => r | some e => some ⟨.refusedOutput e, none⟩) m := by
  cases r with
  | none =>
    rw [Outcome.ended, flush]
    cases m.sink.flush <;> rfl
  | some e =>
    rw [Outcome.ended, flush]
    cases m.sink.flush <;> rfl

inductive Ending where
  | ended (result : Option Error)
  | outOfFuel

def Ending.outcome : Ending → Machine → Outcome
  | .ended result, m => .ended result m
  | .outOfFuel, _ => .outOfFuel

def play : List Effect → Ending → Machine → Outcome
  | [], ending, m => ending.outcome m
  | a :: as, ending, m => (a.on m).andThen (play as ending)

def Env.behind (env : Env) (as : List Effect) : Env :=
  as.foldl Effect.onEnv env

theorem Effect.on_cases (a : Effect) (m : Machine) :
    (∃ m', a.on m = .done m' ∧ m'.env = a.onEnv m.env) ∨
    ∃ e m', a.on m = .failed e m' ∧ m'.env = m.env := by
  cases a with
  | line text =>
    show (∃ m', m.printLine text = _ ∧ _) ∨ ∃ e m', m.printLine text = _ ∧ _
    unfold Machine.printLine
    split
    · exact .inl ⟨_, rfl, rfl⟩
    · exact .inr ⟨_, _, rfl, rfl⟩
  | _ => exact .inl ⟨_, rfl, rfl⟩

/-- The effects that come about on a machine: all up to the first line that its sink refuses. -/
def carriedOut : List Effect → Machine → List Effect
  | [], _ => []
  | a :: as, m =>
    match a.on m with
    | .done m' => a :: carriedOut as m'
    | _ => []

theorem carriedOut_isPrefix (as : List Effect) (m : Machine) : carriedOut as m <+: as := by
  induction as generalizing m with
  | nil => exact List.nil_prefix
  | cons a as ih =>
    rw [carriedOut]
    split
    · exact List.cons_prefix_cons.mpr ⟨rfl, ih _⟩
    · exact List.nil_prefix

theorem env_of_play {as : List Effect} {ending : Ending} {m m' : Machine} {result : Option Error}
    (h : play as ending m = .ended result m') : m'.env = m.env.behind (carriedOut as m) := by
  induction as generalizing m with
  | nil =>
    cases ending with
    | outOfFuel => exact absurd h.symm (Outcome.ended_ne_outOfFuel _ _)
    | ended r =>
      obtain ⟨-, rfl⟩ := Outcome.ended_inj h
      rfl
  | cons a as ih =>
    rw [play] at h
    rw [carriedOut]
    rcases a.on_cases m with ⟨m₁, hdone, henv⟩ | ⟨e, m₁, hfailed, henv⟩
    · rw [hdone] at h ⊢
      rw [ih h, henv]
      rfl
    -- The sink has refused a line, and nothing behind it comes about.
    · rw [hfailed] at h ⊢
      obtain ⟨-, rfl⟩ := Outcome.ended_inj (r := some e) h
      exact henv

/-- Where playing effects out ends, a first part of them has come about. -/
theorem exists_done_of_play {as : List Effect} {ending : Ending} {m m' : Machine}
    {result : Option Error} (h : play as ending m = .ended result m') :
    ∃ done, done <+: as ∧ m'.env = m.env.behind done :=
  ⟨carriedOut as m, carriedOut_isPrefix as m, env_of_play h⟩

/-- Effects that end without fuel have met a line that the sink refuses, and nothing behind it comes
about. -/
theorem carriedOut_append {as : List Effect} {m m' : Machine} {result : Option Error}
    (h : play as .outOfFuel m = .ended result m') (more : List Effect) :
    carriedOut (as ++ more) m = carriedOut as m := by
  induction as generalizing m with
  | nil => exact absurd h.symm (Outcome.ended_ne_outOfFuel _ _)
  | cons a as ih =>
    rw [play] at h
    rw [List.cons_append, carriedOut, carriedOut]
    rcases a.on_cases m with ⟨m₁, hdone, -⟩ | ⟨e, m₁, hfailed, -⟩
    · rw [hdone] at h ⊢
      show a :: carriedOut (as ++ more) m₁ = _
      rw [ih h]
    · rw [hfailed]

/-! ## Code -/

/-- With a statement the code `C` holds its block, and it holds every file. -/
structure Code (files : Files) (C : Stmt → Prop) : Prop where
  block : ∀ {s : Stmt}, C s → ∀ t ∈ s.block, C t
  file : ∀ {path : String} {body : Program}, files.load path = .ok body → ∀ t ∈ body, C t

/-- With a statement `C` holds its block, and with an inclusion the file that it includes. -/
structure Closed (files : Files) (C : Stmt → Prop) : Prop where
  block : ∀ {s : Stmt}, C s → ∀ t ∈ s.block, C t
  included : ∀ {path : String} {body : Program}, C (.inclusion path) →
    files.load path = .ok body → ∀ t ∈ body, C t

theorem Code.closed {files : Files} {C : Stmt → Prop} (hC : Code files C) : Closed files C where
  block := hC.block
  included _ := hC.file

def Env.Holds (env : Env) (C : Stmt → Prop) : Prop :=
  ∀ name body, env.function? name = some body → ∀ t ∈ body, C t

/-- What a statement of the code can do at once. -/
inductive Effect.Of (C : Stmt → Prop) (env : Env) : Effect → Prop where
  | blank : Effect.Of C env (.line "")
  | print {e : Expr} {v : Value} (h : C (.print (some e))) (he : e.eval env = .ok v) :
      Effect.Of C env (.line v.render)
  | clear {name : String} (h : C (.declare name none)) : Effect.Of C env (.bind name .null)
  | declare {name : String} {e : Expr} {v : Value} (h : C (.declare name (some e)))
      (he : e.eval env = .ok v) : Effect.Of C env (.bind name v)
  | item {source item : String} {body : Program} (h : C (.forEach source item body)) (v : Value) :
      Effect.Of C env (.bind item v)
  | leave {source item : String} {body : Program} (h : C (.forEach source item body)) :
      Effect.Of C env (.unbind item)
  | step {cond step : Expr} {body : Program} {name : String} {v : Value}
      (h : C (.loop cond step body)) (htarget : step.stepTarget = .ok name)
      (he : step.eval env = .ok v) : Effect.Of C env (.bind name v)
  | define {name : String} {body : Program} (h : C (.define name body)) :
      Effect.Of C env (.store name body)

/-- Every effect is one of the code at the place where it happens. -/
inductive Effects (C : Stmt → Prop) : Env → List Effect → Prop where
  | nil (env : Env) : Effects C env []
  | cons {env : Env} {a : Effect} {as : List Effect} (h : a.Of C env)
      (rest : Effects C (a.onEnv env) as) : Effects C env (a :: as)

section

variable {files : Files} {C : Stmt → Prop}

theorem Effects.append {env : Env} {as bs : List Effect} (h : Effects C env as)
    (h' : Effects C (env.behind as) bs) : Effects C env (as ++ bs) := by
  induction h with
  | nil env => exact h'
  | cons h rest ih => exact .cons h (ih h')

theorem Effects.of_append {env : Env} {as bs : List Effect} (h : Effects C env (as ++ bs)) :
    Effects C env as := by
  induction as generalizing env with
  | nil => exact .nil env
  | cons a as ih =>
    cases h with
    | cons h rest => exact .cons h (ih rest)

theorem Env.Holds.defineFunction {env : Env} (henv : env.Holds C) {body : Program}
    (hbody : ∀ t ∈ body, C t) (name : String) : (env.defineFunction name body).Holds C := by
  intro f b hb
  by_cases hf : f = name
  · subst hf
    rw [Env.function?_defineFunction_self] at hb
    cases hb
    exact hbody
  · rw [Env.function?_defineFunction_of_ne _ _ hf] at hb
    exact henv f b hb

theorem Effect.Of.holds (hC : Closed files C) {env : Env} {a : Effect} (h : a.Of C env)
    (henv : env.Holds C) : (a.onEnv env).Holds C := by
  cases h with
  -- The stored body is the block of a statement of the code.
  | define h => exact henv.defineFunction (hC.block h) _
  | _ => exact henv

theorem Effects.holds (hC : Closed files C) {env : Env} {as : List Effect} (h : Effects C env as)
    (henv : env.Holds C) : (env.behind as).Holds C := by
  induction h with
  | nil env => exact henv
  | cons h rest ih => exact ih (h.holds hC henv)

end

/-! ## Effects one behind the other -/

/-- Effects that end well, and then a run that plays out further effects. -/
theorem play_andThen {as bs : List Effect} {ending : Ending} {next : Machine → Outcome} {m : Machine}
    (hnext : ∀ sink, next ⟨m.env.behind as, sink⟩ = play bs ending ⟨m.env.behind as, sink⟩) :
    (play as (.ended none) m).andThen next = play (as ++ bs) ending m := by
  induction as generalizing m with
  | nil => exact hnext m.sink
  | cons a as ih =>
    rw [play, Outcome.andThen_assoc, List.cons_append, play]
    rcases a.on_cases m with ⟨m', hdone, henv⟩ | ⟨e, m', hfailed, -⟩
    · rw [hdone]
      show (play as (.ended none) m').andThen next = play (as ++ bs) ending m'
      apply ih
      rw [henv]
      exact hnext
    · rw [hfailed]
      rfl

theorem play_andThen_of_ne {as : List Effect} {ending : Ending} (hne : ending ≠ .ended none)
    (next : Machine → Outcome) (m : Machine) :
    (play as ending m).andThen next = play as ending m := by
  induction as generalizing m with
  | nil =>
    match ending, hne with
    | .ended (some e), _ => rfl
    | .outOfFuel, _ => rfl
  | cons a as ih =>
    rw [play, Outcome.andThen_assoc]
    congr 1
    funext m
    exact ih m

end PiScript
