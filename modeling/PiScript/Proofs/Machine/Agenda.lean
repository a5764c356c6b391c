import PiScript.Proofs.Machine.Effects

/-!
# Runs step by step

A run works off a list of tasks. The first task is performed: it shows what happens at once, and
further tasks take its place, in front of the others (`Task.Performs`); or it fails and ends the run
(`Task.Fails`). What a run shows is the trace of its events (`Runs`), and a trace has an end only if
the run has one: every run can be looked at while tasks are left.

Executing a statement does, on every sink, what working off its task shows (`Stmt.exec_follows`). A
property of runs can therefore be read off single tasks; the effects of code are the first example.
-/

namespace PiScript

inductive Task where
  | run (s : Stmt)
  /-- Ends a list of statements with an empty line. -/
  | close
  | bind (name : String) (v : Value)
  | unbind (name : String)
  | step (e : Expr)

def Task.ofBlock (p : Program) : List Task :=
  p.map .run ++ [.close]

inductive Event where
  /-- A `print` was executed; `none` if it had nothing to print. -/
  | printed (v : Option Value)
  /-- A list of statements came to its end. -/
  | closed
  | bound (name : String) (v : Value)
  | unbound (name : String)
  | stored (name : String) (body : Program)

def Event.effect : Event → Effect
  | .printed none => .line ""
  | .printed (some v) => .line v.render
  | .closed => .line ""
  | .bound name v => .bind name v
  | .unbound name => .unbind name
  | .stored name body => .store name body

def Env.after (env : Env) (trace : List Event) : Env :=
  env.behind (trace.map Event.effect)

theorem Env.after_append (env : Env) (trace more : List Event) :
    env.after (trace ++ more) = (env.after trace).after more := by
  rw [Env.after, List.map_append, Env.behind, List.foldl_append]
  rfl

/-! ## Tasks -/

/-- Performing a task: what is seen of it, and the tasks that take its place. -/
inductive Task.Performs (files : Files) (env : Env) : Task → List Event → List Task → Prop where
  | close : Performs files env .close [.closed] []
  | bind (name : String) (v : Value) : Performs files env (.bind name v) [.bound name v] []
  | unbind (name : String) : Performs files env (.unbind name) [.unbound name] []
  | step {e : Expr} {name : String} {v : Value} (htarget : e.stepTarget = .ok name)
      (he : e.eval env = .ok v) : Performs files env (.step e) [.bound name v] []
  | inclusion {path : String} {body : Program} (hload : files.load path = .ok body) :
      Performs files env (.run (.inclusion path)) [] (ofBlock body)
  | printBlank : Performs files env (.run (.print none)) [.printed none] []
  | print {e : Expr} {v : Value} (he : e.eval env = .ok v) :
      Performs files env (.run (.print (some e))) [.printed (some v)] []
  | declareNull (name : String) :
      Performs files env (.run (.declare name none)) [.bound name .null] []
  | declare (name : String) {e : Expr} {v : Value} (he : e.eval env = .ok v) :
      Performs files env (.run (.declare name (some e))) [.bound name v] []
  | forEach {source : String} (item : String) (body : Program) {v : Value} {items : Items}
      (hv : env.get? source = some v) (hitems : Items.ofValue? v = some items) :
      Performs files env (.run (.forEach source item body)) []
        (items.toList.flatMap (fun v => .bind item v :: ofBlock body) ++ [.unbind item])
  | loopRound {cond : Expr} (step : Expr) (body : Program)
      (hcond : cond.evalCondition env = .ok true) :
      Performs files env (.run (.loop cond step body)) []
        (ofBlock body ++ [.step step, .run (.loop cond step body)])
  | loopEnd {cond : Expr} (step : Expr) (body : Program)
      (hcond : cond.evalCondition env = .ok false) :
      Performs files env (.run (.loop cond step body)) [] []
  | branchTaken {cond : Expr} (body : Program) (hcond : cond.eval env = .ok (.truth true)) :
      Performs files env (.run (.branch cond body)) [] (ofBlock body)
  | branchLeft {cond : Expr} (body : Program) (hcond : cond.eval env = .ok (.truth false)) :
      Performs files env (.run (.branch cond body)) [] []
  | define (name : String) (body : Program) :
      Performs files env (.run (.define name body)) [.stored name body] []
  | call {name : String} {body : Program} (hbody : env.function? name = some body) :
      Performs files env (.run (.call name)) [] (ofBlock body)

/-- A task that cannot be performed, and the error it ends the run with. -/
inductive Task.Fails (files : Files) (env : Env) : Task → Error → Prop where
  | stepTarget {e : Expr} {cause : Cause} (h : e.stepTarget = .error cause) :
      Fails files env (.step e) ⟨cause, none⟩
  | stepValue {e : Expr} {name : String} {cause : Cause} (htarget : e.stepTarget = .ok name)
      (h : e.eval env = .error cause) : Fails files env (.step e) ⟨cause, none⟩
  | inclusion {path : String} {e : Error} (h : files.load path = .error e) :
      Fails files env (.run (.inclusion path)) e
  | print {e : Expr} {cause : Cause} (h : e.eval env = .error cause) :
      Fails files env (.run (.print (some e))) ⟨cause, none⟩
  | declare (name : String) {e : Expr} {cause : Cause} (h : e.eval env = .error cause) :
      Fails files env (.run (.declare name (some e))) ⟨cause, none⟩
  | unboundSource {source : String} (item : String) (body : Program)
      (h : env.get? source = none) :
      Fails files env (.run (.forEach source item body)) ⟨.undeclaredVariable source, none⟩
  | notIterable {source : String} (item : String) (body : Program) {v : Value}
      (hv : env.get? source = some v) (h : Items.ofValue? v = none) :
      Fails files env (.run (.forEach source item body)) ⟨.notIterable v.sort, none⟩
  | loopCondition {cond : Expr} (step : Expr) (body : Program) {cause : Cause}
      (h : cond.evalCondition env = .error cause) :
      Fails files env (.run (.loop cond step body)) ⟨cause, none⟩
  | branchValue {cond : Expr} (body : Program) {cause : Cause}
      (h : cond.eval env = .error cause) :
      Fails files env (.run (.branch cond body)) ⟨cause, none⟩
  | branchCondition {cond : Expr} (body : Program) {v : Value} (hv : cond.eval env = .ok v)
      (h : ∀ b, v ≠ .truth b) :
      Fails files env (.run (.branch cond body)) ⟨.branchCondition v.sort, none⟩
  | call {name : String} (h : env.function? name = none) :
      Fails files env (.run (.call name)) ⟨.undeclaredFunction name, none⟩

namespace Task

variable {files : Files} {env : Env} {t : Task} {shown shown' : List Event}
  {more more' : List Task} {e e' : Error}

theorem Performs.unique (h : t.Performs files env shown more)
    (h' : t.Performs files env shown' more') : shown = shown' ∧ more = more' := by
  cases h <;> cases h' <;> simp_all

theorem Fails.unique (h : t.Fails files env e) (h' : t.Fails files env e') : e = e' := by
  cases h <;> cases h' <;> simp_all

theorem Performs.not_fails (h : t.Performs files env shown more) : ¬t.Fails files env e := by
  intro h'
  cases h <;> cases h' <;> simp_all

end Task

/-! ## Working off tasks -/

/-- Working off tasks shows a trace, and comes to an end. -/
inductive Runs (files : Files) : List Task → Env → List Event → Ending → Prop where
  | finished (env : Env) : Runs files [] env [] (.ended none)
  /-- A run can be looked at whenever tasks are left. -/
  | unfinished (ts : List Task) (env : Env) : Runs files ts env [] .outOfFuel
  | failed {t : Task} {env : Env} {e : Error} (ts : List Task) (h : t.Fails files env e) :
      Runs files (t :: ts) env [] (.ended (some e))
  | step {t : Task} {ts more : List Task} {env : Env} {shown trace : List Event}
      {ending : Ending} (h : t.Performs files env shown more)
      (rest : Runs files (more ++ ts) (env.after shown) trace ending) :
      Runs files (t :: ts) env (shown ++ trace) ending

namespace Runs

variable {files : Files} {ts us : List Task} {env : Env} {trace trace' : List Event}
  {ending : Ending}

theorem unique {result result' : Option Error} (h : Runs files ts env trace (.ended result))
    (h' : Runs files ts env trace' (.ended result')) : trace = trace' ∧ result = result' := by
  -- Along the first run: its next task does one thing only, so the second run does the same.
  generalize hending : Ending.ended result = ending at h
  induction h generalizing trace' with
  | finished env =>
    cases hending
    cases h'
    exact ⟨rfl, rfl⟩
  | unfinished ts env => cases hending
  | failed ts hfails =>
    cases hending
    cases h' with
    | failed ts hfails' => exact ⟨rfl, congrArg some (hfails.unique hfails')⟩
    | step hperforms rest => exact absurd hfails hperforms.not_fails
  | step hperforms rest ih =>
    cases h' with
    | failed ts hfails => exact absurd hfails hperforms.not_fails
    | step hperforms' rest' =>
      obtain ⟨rfl, rfl⟩ := hperforms.unique hperforms'
      obtain ⟨rfl, rfl⟩ := ih rest' hending
      exact ⟨rfl, rfl⟩

/-- Tasks behind others are worked off when those are done. -/
theorem append (h : Runs files ts env trace (.ended none))
    (h' : Runs files us (env.after trace) trace' ending) :
    Runs files (ts ++ us) env (trace ++ trace') ending := by
  generalize hnone : Ending.ended none = none' at h
  induction h with
  | finished env => exact h'
  | unfinished ts env => cases hnone
  | failed ts hfails => cases hnone
  | step hperforms rest ih =>
    rw [Env.after_append] at h'
    have hrest := ih h' hnone
    rw [List.append_assoc] at hrest
    rw [List.cons_append, List.append_assoc]
    exact .step hperforms hrest

theorem append_of_ne (h : Runs files ts env trace ending) (hne : ending ≠ .ended none)
    (us : List Task) : Runs files (ts ++ us) env trace ending := by
  -- A run that stops within `ts` does not come to the tasks behind.
  induction h with
  | finished env => exact absurd rfl hne
  | unfinished ts env => exact .unfinished _ env
  | failed ts hfails => exact .failed _ hfails
  | step hperforms rest ih =>
    have hrest := ih hne
    rw [List.append_assoc] at hrest
    exact .step hperforms hrest

end Runs

/-! ## Execution works tasks off -/

/-- From the given namespaces, on every sink, the run plays out what working off the tasks shows. -/
def Follows (files : Files) (ts : List Task) (env : Env) (run : Machine → Outcome) : Prop :=
  ∃ trace ending, Runs files ts env trace ending ∧
    ∀ sink, run ⟨env, sink⟩ = play (trace.map Event.effect) ending ⟨env, sink⟩

namespace Follows

variable {files : Files} {ts us : List Task} {t : Task} {env : Env} {run next : Machine → Outcome}

theorem outOfFuel (files : Files) (ts : List Task) (env : Env) :
    Follows files ts env fun _ => .outOfFuel :=
  ⟨[], .outOfFuel, .unfinished ts env, fun _ => rfl⟩

theorem done (files : Files) (env : Env) : Follows files [] env .done :=
  ⟨[], .ended none, .finished env, fun _ => rfl⟩

theorem failed {e : Error} (h : t.Fails files env e) : Follows files [t] env (.failed e) :=
  ⟨[], .ended (some e), .failed [] h, fun _ => rfl⟩

theorem enter (h : t.Performs files env [] us) (hrun : Follows files us env run) :
    Follows files [t] env run := by
  obtain ⟨trace, ending, htrace, hplay⟩ := hrun
  refine ⟨trace, ending, ?_, hplay⟩
  rw [← List.append_nil us] at htrace
  exact .step h htrace

theorem event {a : Event} (h : t.Performs files env [a] []) :
    Follows files [t] env fun m => a.effect.on m := by
  refine ⟨[a], .ended none, .step h (.finished _), fun sink => ?_⟩
  show a.effect.on ⟨env, sink⟩ = (a.effect.on ⟨env, sink⟩).andThen .done
  cases a.effect.on ⟨env, sink⟩ <;> rfl

theorem andThen (h : Follows files ts env run) (hnext : ∀ env', Follows files us env' next) :
    Follows files (ts ++ us) env fun m => (run m).andThen next := by
  obtain ⟨trace, ending, htrace, hrun⟩ := h
  -- Only behind a first part that ended well does the second part run, in the namespaces there.
  by_cases hdone : ending = .ended none
  · subst hdone
    obtain ⟨trace', ending, htrace', hplay⟩ := hnext (env.after trace)
    refine ⟨trace ++ trace', ending, htrace.append htrace', fun sink => ?_⟩
    show (run ⟨env, sink⟩).andThen next = _
    rw [hrun sink, play_andThen hplay, List.map_append]
  · refine ⟨trace, ending, htrace.append_of_ne hdone us, fun sink => ?_⟩
    show (run ⟨env, sink⟩).andThen next = _
    rw [hrun sink, play_andThen_of_ne hdone]

end Follows

section

variable {files : Files}

theorem runBlock_follows {exec : Stmt → Machine → Outcome}
    (hexec : ∀ s env, Follows files [.run s] env (exec s)) (p : Program) (env : Env) :
    Follows files (Task.ofBlock p) env (runBlock exec p) := by
  induction p generalizing env with
  | nil => exact Follows.event .close
  | cons s rest ih => exact (hexec s env).andThen ih

theorem Items.run_follows {round : Value → Machine → Outcome} {tasks : Value → List Task}
    (hround : ∀ v env, Follows files (tasks v) env (round v)) (items : Items) (env : Env) :
    Follows files (items.toList.flatMap tasks) env (items.run round) := by
  -- Items are counted out or taken one by one; each round may find other namespaces.
  cases items with
  | numbers first count =>
    show Follows files (((List.range' first count).map ofCount).flatMap tasks) env
      (runNumbers round count first)
    induction count generalizing first env with
    | zero => exact .done files env
    | succ count ih => exact (hround _ env).andThen fun env' => ih env' (first + 1)
  | chars cs =>
    show Follows files ((cs.map ofChar).flatMap tasks) env (runChars round cs)
    induction cs generalizing env with
    | nil => exact .done files env
    | cons c cs ih => exact (hround _ env).andThen ih

theorem Machine.step_follows (e : Expr) (env : Env) :
    Follows files [.step e] env fun m => m.step e := by
  unfold Follows Machine.step
  cases htarget : e.stepTarget with
  | error cause => exact Follows.failed (.stepTarget htarget)
  | ok name =>
    simp only
    cases he : e.eval env with
    | error cause => exact Follows.failed (.stepValue htarget he)
    | ok v => exact Follows.event (.step htarget he)

theorem runLoop_follows {exec : Stmt → Machine → Outcome}
    (hexec : ∀ s env, Follows files [.run s] env (exec s)) (cond step : Expr) (body : Program)
    (fuel : Nat) (env : Env) :
    Follows files [.run (.loop cond step body)] env
      (runLoop cond.evalCondition
        (fun m => (runBlock exec body m).andThen fun m => m.step step) fuel) := by
  induction fuel generalizing env with
  | zero => exact .outOfFuel files _ env
  | succ fuel ih =>
    -- A round is the block and the step, and the loop stands behind it again.
    have hround := ((runBlock_follows hexec body env).andThen (Machine.step_follows step)).andThen ih
    rw [List.append_assoc] at hround
    unfold Follows
    simp only [runLoop]
    cases hcond : cond.evalCondition env with
    | error cause => exact Follows.failed (.loopCondition step body hcond)
    | ok b =>
      cases b with
      | false => exact Follows.enter (.loopEnd step body hcond) (.done files env)
      | true => exact Follows.enter (.loopRound step body hcond) hround

/-- One statement, with the statements inside it run on less fuel. -/
theorem Stmt.exec_follows_succ {fuel : Nat}
    (hexec : ∀ s env, Follows files [.run s] env (Stmt.exec files fuel s)) (s : Stmt) (env : Env) :
    Follows files [.run s] env (Stmt.exec files (fuel + 1) s) := by
  have hblock := runBlock_follows hexec
  unfold Follows
  cases s with
  | inclusion path =>
    simp only [Stmt.exec]
    cases hload : files.load path with
    | error e => exact Follows.failed (.inclusion hload)
    | ok body => exact Follows.enter (.inclusion hload) (hblock body env)
  | print e =>
    cases e with
    | none => exact Follows.event .printBlank
    | some e =>
      simp only [Stmt.exec]
      cases he : e.eval env with
      | error cause => exact Follows.failed (.print he)
      | ok v => exact Follows.event (.print he)
  | declare name e =>
    cases e with
    | none => exact Follows.event (.declareNull name)
    | some e =>
      simp only [Stmt.exec]
      cases he : e.eval env with
      | error cause => exact Follows.failed (.declare name he)
      | ok v => exact Follows.event (.declare name he)
  | forEach source item body =>
    simp only [Stmt.exec]
    cases hv : env.get? source with
    | none => exact Follows.failed (.unboundSource item body hv)
    | some v =>
      simp only
      cases hitems : Items.ofValue? v with
      | none => exact Follows.failed (.notIterable item body hv hitems)
      | some items =>
        -- The rounds come first, and the variable is unbound only when all of them ended well.
        refine Follows.enter (.forEach item body hv hitems) (Follows.andThen ?_ ?_)
        · refine Items.run_follows (fun v env => ?_) items env
          exact (Follows.event (.bind item v)).andThen (hblock body)
        · exact fun env' => Follows.event (.unbind item)
  | loop cond step body =>
    simp only [Stmt.exec]
    exact runLoop_follows hexec cond step body fuel env
  | branch cond body =>
    simp only [Stmt.exec]
    cases hcond : cond.eval env with
    | error cause => exact Follows.failed (.branchValue body hcond)
    | ok v =>
      cases v with
      | truth b =>
        cases b with
        | true => exact Follows.enter (.branchTaken body hcond) (hblock body env)
        | false => exact Follows.enter (.branchLeft body hcond) (.done files env)
      | _ => exact Follows.failed (.branchCondition body hcond (by simp))
  | define name body => exact Follows.event (.define name body)
  | call name =>
    simp only [Stmt.exec]
    cases hbody : env.function? name with
    | none => exact Follows.failed (.call hbody)
    | some body => exact Follows.enter (.call hbody) (hblock body env)

theorem Stmt.exec_follows (files : Files) (fuel : Nat) (s : Stmt) (env : Env) :
    Follows files [.run s] env (Stmt.exec files fuel s) := by
  -- The fuel bounds the nesting, so the statements inside `s` have the hypothesis for less of it.
  induction fuel generalizing s env with
  | zero => exact .outOfFuel files _ env
  | succ fuel ih => exact Stmt.exec_follows_succ ih s env

/-- A whole program plays out what working off its tasks shows, and flushes the sink behind it. -/
theorem Program.run_follows (files : Files) (fuel : Nat) (p : Program) (env : Env) :
    ∃ trace ending, Runs files (Task.ofBlock p) env trace ending ∧
      ∀ sink, p.run files fuel ⟨env, sink⟩ =
        flush (play (trace.map Event.effect) ending ⟨env, sink⟩) := by
  obtain ⟨trace, ending, htrace, hplay⟩ := runBlock_follows (Stmt.exec_follows files fuel) p env
  refine ⟨trace, ending, htrace, fun sink => ?_⟩
  rw [run, hplay sink]

end

/-! ## The effects of code -/

def Task.Of (C : Stmt → Prop) : Task → Prop
  | .run s => C s
  | .close => True
  | .bind name _ | .unbind name => ∃ source body, C (.forEach source name body)
  | .step e => ∃ cond body, C (.loop cond e body)

section

variable {files : Files} {C : Stmt → Prop} {env : Env}

theorem Task.of_ofBlock {p : Program} (hp : ∀ s ∈ p, C s) : ∀ t ∈ ofBlock p, t.Of C := by
  intro t ht
  rcases List.mem_append.mp ht with ht | ht
  · obtain ⟨s, hs, rfl⟩ := List.mem_map.mp ht
    exact hp s hs
  · rw [List.mem_singleton.mp ht]
    trivial

theorem Task.Performs.effects {t : Task} {shown : List Event} {more : List Task}
    (h : t.Performs files env shown more) (ht : t.Of C) :
    Effects C env (shown.map Event.effect) := by
  cases h with
  | close => exact .cons .blank (.nil _)
  | bind name v =>
    obtain ⟨source, body, hC⟩ := ht
    exact .cons (.item hC v) (.nil _)
  | unbind name =>
    obtain ⟨source, body, hC⟩ := ht
    exact .cons (.leave hC) (.nil _)
  | step htarget he =>
    obtain ⟨cond, body, hC⟩ := ht
    exact .cons (.step hC htarget he) (.nil _)
  | printBlank => exact .cons .blank (.nil _)
  | print he => exact .cons (.print ht he) (.nil _)
  | declareNull name => exact .cons (.clear ht) (.nil _)
  | declare name he => exact .cons (.declare ht he) (.nil _)
  | define name body => exact .cons (.define ht) (.nil _)
  | _ => exact .nil env

theorem Task.Performs.more_of (hC : Closed files C) (henv : env.Holds C) {t : Task}
    {shown : List Event} {more : List Task} (h : t.Performs files env shown more) (ht : t.Of C) :
    ∀ u ∈ more, u.Of C := by
  cases h with
  | inclusion hload => exact of_ofBlock (hC.included ht hload)
  | forEach item body hv hitems =>
    have hbody := of_ofBlock (hC.block ht)
    simp only [List.forall_mem_append, List.forall_mem_flatMap, List.forall_mem_cons]
    exact ⟨fun v _ => ⟨⟨_, _, ht⟩, hbody⟩, ⟨_, _, ht⟩, by simp⟩
  | loopRound step body hcond =>
    simp only [List.forall_mem_append, List.forall_mem_cons]
    exact ⟨of_ofBlock (hC.block ht), ⟨_, _, ht⟩, ht, by simp⟩
  | branchTaken body hcond => exact of_ofBlock (hC.block ht)
  | call hbody => exact of_ofBlock (henv _ _ hbody)
  | _ => simp

/-- What is left behind a task comes from the code again, and so do the stored functions. -/
theorem Task.Performs.keeps (hC : Closed files C) (henv : env.Holds C) {t : Task}
    {ts more : List Task} {shown : List Event} (h : t.Performs files env shown more)
    (hts : ∀ u ∈ t :: ts, u.Of C) : (env.after shown).Holds C ∧ ∀ u ∈ more ++ ts, u.Of C := by
  rw [List.forall_mem_cons] at hts
  rw [List.forall_mem_append]
  -- The task may have stored a function, whose body is a block of the code.
  exact ⟨(h.effects hts.1).holds hC henv, h.more_of hC henv hts.1, hts.2⟩

theorem Runs.effects (hC : Closed files C) {ts : List Task} {trace : List Event} {ending : Ending}
    (h : Runs files ts env trace ending) (henv : env.Holds C) (hts : ∀ t ∈ ts, t.Of C) :
    Effects C env (trace.map Event.effect) := by
  induction h with
  | step hperforms rest ih =>
    obtain ⟨henv', hts'⟩ := hperforms.keeps hC henv hts
    rw [List.map_append]
    exact (hperforms.effects (hts _ List.mem_cons_self)).append (ih henv' hts')
  | _ => exact .nil _

/-- A whole program plays out effects of the code and flushes the sink behind them. -/
theorem Program.run_played (hC : Code files C) (fuel : Nat) {p : Program} (hp : ∀ s ∈ p, C s)
    (env : Env) (henv : env.Holds C) :
    ∃ as ending, Effects C env as ∧
      ∀ sink, p.run files fuel ⟨env, sink⟩ = flush (play as ending ⟨env, sink⟩) := by
  obtain ⟨trace, ending, htrace, hplay⟩ := Program.run_follows files fuel p env
  exact ⟨trace.map Event.effect, ending, htrace.effects hC.closed henv (Task.of_ofBlock hp), hplay⟩

end

end PiScript
