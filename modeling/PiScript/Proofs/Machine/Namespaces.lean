import PiScript.Proofs.Machine.Footprint

/-!
# Namespaces and their listings

Namespaces change by operations: a name is bound or unbound, a function is stored, or everything is
forgotten. Whole runs change them by operations too, those that their traces show up to the first
line that the sink refuses. Whatever the operations are, the last one that decides about a name is
the one that counts, and a listing shows the names that are bound in the order of their bytes. A
listing therefore says nothing about the order in which names were bound.
-/

namespace PiScript

/-! ## What tables list -/

/-- Lists in the strict order of the names in them are equal if they have the same members. -/
theorem Name.eq_of_sorted {α : Type} (name : α → String) {as bs : List α}
    (has : as.Pairwise fun a b => Precedes (name a) (name b))
    (hbs : bs.Pairwise fun a b => Precedes (name a) (name b)) (hmem : ∀ a, a ∈ as ↔ a ∈ bs) :
    as = bs := by
  have hnodup {cs : List α} (hcs : cs.Pairwise fun a b => Precedes (name a) (name b)) :
      cs.Nodup := by
    refine hcs.imp fun {a b} hab heq => ?_
    rw [heq] at hab
    exact not_precedes_self _ hab
  have hperm : as.Perm bs := (List.perm_ext_iff_of_nodup (hnodup has) (hnodup hbs)).mpr hmem
  apply hperm.eq_of_pairwise _ has hbs
  intro a b _ _ hab hba
  exact absurd (hab.trans hba) (not_precedes_self _)

namespace Bindings

variable {α : Type}

/-- A look-up among sorted entries finds an entry wherever it stands: no other has its name. -/
theorem lookup_eq_some_iff {entries : List (String × α)} {name : String} {v : α}
    (h : entries.Pairwise fun a b => Name.Precedes a.1 b.1) :
    entries.lookup name = some v ↔ (name, v) ∈ entries := by
  induction entries with
  | nil => simp
  | cons entry rest ih =>
    obtain ⟨hentry, hrest⟩ := List.pairwise_cons.mp h
    rw [List.lookup_cons, List.mem_cons]
    by_cases hname : name = entry.1
    · have hnotin : (name, v) ∉ rest := fun hmem =>
        Name.not_precedes_self entry.1 (hname ▸ hentry _ hmem)
      subst hname
      simp [hnotin, Prod.ext_iff, eq_comm]
    · have hfalse : (name == entry.1) = false := by simpa using hname
      have hne : (name, v) ≠ entry := fun heq => hname (congrArg Prod.fst heq)
      rw [hfalse, ih hrest]
      simp [hne]

theorem mem_entries_iff (b : Bindings α) {name : String} {v : α} :
    (name, v) ∈ b.entries ↔ b.get? name = some v :=
  (lookup_eq_some_iff b.sorted).symm

theorem mem_names_iff (b : Bindings α) {name : String} :
    name ∈ b.names ↔ (b.get? name).isSome := by
  rw [Option.isSome_iff_exists, names, List.mem_map]
  constructor
  · rintro ⟨⟨name, v⟩, hmem, rfl⟩
    exact ⟨v, b.mem_entries_iff.mp hmem⟩
  · rintro ⟨v, hv⟩
    exact ⟨(name, v), b.mem_entries_iff.mpr hv, rfl⟩

theorem names_sorted (b : Bindings α) : b.names.Pairwise Name.Precedes :=
  List.pairwise_map.mpr b.sorted

theorem entries_eq {b c : Bindings α} (h : ∀ name, b.get? name = c.get? name) :
    b.entries = c.entries := by
  apply Name.eq_of_sorted Prod.fst b.sorted c.sorted
  rintro ⟨name, v⟩
  rw [mem_entries_iff, mem_entries_iff, h name]

theorem names_eq {b c : Bindings α}
    (h : ∀ name, (b.get? name).isSome = (c.get? name).isSome) : b.names = c.names := by
  apply Name.eq_of_sorted id b.names_sorted c.names_sorted
  intro name
  rw [mem_names_iff, mem_names_iff, h name]

end Bindings

/-! ## Operations -/

inductive Operation where
  | define (name : String) (v : Value)
  | remove (name : String)
  | defineFunction (name : String) (body : Program)
  | clear

namespace Operation

def onEnv (env : Env) : Operation → Env
  | .define name v => env.define name v
  | .remove name => env.remove name
  | .defineFunction name body => env.defineFunction name body
  | .clear => .empty

/-- What an operation decides about a variable, if it touches it: its value, or that it has none. -/
def var? (x : String) : Operation → Option (Option Value)
  | .define name v => if x = name then some (some v) else none
  | .remove name => if x = name then some none else none
  | .defineFunction _ _ => none
  | .clear => some none

def function? (f : String) : Operation → Option (Option Program)
  | .define _ _ | .remove _ => none
  | .defineFunction name body => if f = name then some (some body) else none
  | .clear => some none

theorem get?_onEnv (op : Operation) (env : Env) (x : String) :
    (op.onEnv env).get? x = (op.var? x).getD (env.get? x) := by
  cases op with
  | define name v =>
    by_cases h : x = name
    · rw [h]
      simp [onEnv, var?]
    · rw [onEnv, env.get?_define_of_ne v h]
      simp [var?, h]
  | remove name =>
    by_cases h : x = name
    · rw [h]
      simp [onEnv, var?]
    · rw [onEnv, env.get?_remove_of_ne h]
      simp [var?, h]
  | defineFunction name body => rfl
  | clear => rfl

theorem function?_onEnv (op : Operation) (env : Env) (f : String) :
    (op.onEnv env).function? f = (op.function? f).getD (env.function? f) := by
  cases op with
  | defineFunction name body =>
    by_cases h : f = name
    · rw [h]
      simp [onEnv, function?]
    · rw [onEnv, env.function?_defineFunction_of_ne body h]
      simp [function?, h]
  | _ => rfl

end Operation

def Env.perform (env : Env) (ops : List Operation) : Env :=
  ops.foldl Operation.onEnv env

namespace Env

theorem perform_append (env : Env) (ops more : List Operation) :
    env.perform (ops ++ more) = (env.perform ops).perform more :=
  List.foldl_append

/-- Where each operation either decides an answer or leaves it alone, the last decision counts. -/
theorem look_perform {α : Type} (look : Env → α) (decided? : Operation → Option α)
    (h : ∀ op env, look (op.onEnv env) = (decided? op).getD (look env)) (env : Env)
    (ops : List Operation) :
    look (env.perform ops) = (ops.filterMap decided?).getLast?.getD (look env) := by
  induction ops generalizing env with
  | nil => rfl
  | cons op ops ih =>
    show look ((op.onEnv env).perform ops) = _
    rw [ih, h]
    cases hop : decided? op with
    | none => simp [hop]
    | some a => simp [hop, List.getLast?_cons]

theorem get?_perform (env : Env) (ops : List Operation) (x : String) :
    (env.perform ops).get? x =
      (ops.filterMap (·.var? x)).getLast?.getD (env.get? x) :=
  look_perform (·.get? x) (·.var? x) (fun op env => op.get?_onEnv env x) env ops

theorem function?_perform (env : Env) (ops : List Operation) (f : String) :
    (env.perform ops).function? f =
      (ops.filterMap (·.function? f)).getLast?.getD (env.function? f) :=
  look_perform (·.function? f) (·.function? f) (fun op env => op.function?_onEnv env f) env ops

end Env

/-! ## Operations of runs -/

/-- The operation that an effect is, if it is one: a line changes no namespaces. -/
def Effect.operation? : Effect → Option Operation
  | .bind name v => some (.define name v)
  | .unbind name => some (.remove name)
  | .store name body => some (.defineFunction name body)
  | .line _ => none

theorem Env.behind_eq_perform (env : Env) (as : List Effect) :
    env.behind as = env.perform (as.filterMap Effect.operation?) := by
  induction as generalizing env with
  | nil => rfl
  | cons a as ih =>
    show (a.onEnv env).behind as = _
    rw [ih]
    cases a <;> rfl

/-- The program issues the operations in a run from `m` that ends in `m'`: they are those among the
effects of its trace that come about. -/
def Program.Issues (files : Files) (p : Program) (m : Machine) (ops : List Operation)
    (result : Option Error) (m' : Machine) : Prop :=
  p.Ends files m (.ended result m') ∧
  ∃ trace ending, Runs files (Task.ofBlock p) m.env trace ending ∧
    flush (play (trace.map Event.effect) ending m) = .ended result m' ∧
    ops = (carriedOut (trace.map Event.effect) m).filterMap Effect.operation?

theorem Program.Ends.exists_issues {files : Files} {p : Program} {m m' : Machine}
    {result : Option Error} (h : p.Ends files m (.ended result m')) :
    ∃ ops, p.Issues files m ops result m' := by
  obtain ⟨fuel, hrun⟩ := h.2
  obtain ⟨trace, ending, htrace, hplay⟩ := Program.run_follows files fuel p m.env
  rw [hplay m.sink] at hrun
  exact ⟨_, h, trace, ending, htrace, hrun, rfl⟩

theorem Program.Issues.env_eq {files : Files} {p : Program} {m m' : Machine}
    {ops : List Operation} {result : Option Error} (h : p.Issues files m ops result m') :
    m'.env = m.env.perform ops := by
  obtain ⟨-, trace, ending, -, hrun, rfl⟩ := h
  obtain ⟨r, hended⟩ := Program.exists_of_flush_eq_ended hrun
  rw [env_of_play hended, Env.behind_eq_perform]

/-- Two traces of a run are the same, or one is the beginning of the other and was taken before the
run had ended. -/
theorem Runs.compare {files : Files} {ts : List Task} {env : Env} {trace trace' : List Event}
    {ending ending' : Ending} (h : Runs files ts env trace ending)
    (h' : Runs files ts env trace' ending') :
    trace = trace' ∨ (trace <+: trace' ∧ ending = .outOfFuel) ∨
      (trace' <+: trace ∧ ending' = .outOfFuel) := by
  -- Both runs perform the same tasks for as long as both are looked at.
  induction h generalizing trace' with
  | finished env =>
    cases h' with
    | finished => exact .inl rfl
    | unfinished => exact .inl rfl
  | unfinished ts env => exact .inr (.inl ⟨List.nil_prefix, rfl⟩)
  | failed ts hfails =>
    cases h' with
    | unfinished => exact .inl rfl
    | failed ts hfails' => exact .inl rfl
    | step hperforms rest => exact absurd hfails hperforms.not_fails
  | step hperforms rest ih =>
    cases h' with
    | unfinished => exact .inr (.inr ⟨List.nil_prefix, rfl⟩)
    | failed ts hfails => exact absurd hfails hperforms.not_fails
    | step hperforms' rest' =>
      obtain ⟨rfl, rfl⟩ := hperforms.unique hperforms'
      simpa [List.prefix_append_right_inj] using ih rest'

theorem Program.Issues.unique {files : Files} {p : Program} {m m₁ m₂ : Machine}
    {ops₁ ops₂ : List Operation} {r₁ r₂ : Option Error} (h₁ : p.Issues files m ops₁ r₁ m₁)
    (h₂ : p.Issues files m ops₂ r₂ m₂) : ops₁ = ops₂ := by
  obtain ⟨-, trace₁, ending₁, htrace₁, hrun₁, rfl⟩ := h₁
  obtain ⟨-, trace₂, ending₂, htrace₂, hrun₂, rfl⟩ := h₂
  have hlonger {trace trace' : List Event} {m' : Machine} {r : Option Error}
      (hbegins : trace <+: trace')
      (hrun : flush (play (trace.map Event.effect) .outOfFuel m) = .ended r m') :
      carriedOut (trace'.map Event.effect) m = carriedOut (trace.map Event.effect) m := by
    obtain ⟨more, rfl⟩ := hbegins
    obtain ⟨r', hended⟩ := Program.exists_of_flush_eq_ended hrun
    rw [List.map_append]
    exact carriedOut_append hended _
  obtain rfl | ⟨hbegins, rfl⟩ | ⟨hbegins, rfl⟩ := htrace₁.compare htrace₂
  · rfl
  · rw [hlonger hbegins hrun₁]
  · rw [hlonger hbegins hrun₂]

/-- From the namespaces `env` the operations lead to others, some of them issued directly and some
by whole runs, with any files and on any sinks; each run may have ended well or not. -/
inductive Env.History (env : Env) : List Operation → Env → Prop where
  | start : env.History [] env
  | operation {ops : List Operation} {env' : Env} (before : env.History ops env')
      (op : Operation) : env.History (ops ++ [op]) (op.onEnv env')
  | run {ops more : List Operation} {env' : Env} {files : Files} {p : Program} {sink : Sink}
      {result : Option Error} {m : Machine} (before : env.History ops env')
      (hrun : p.Issues files ⟨env', sink⟩ more result m) : env.History (ops ++ more) m.env

theorem Env.History.env_eq {env env' : Env} {ops : List Operation} (h : env.History ops env') :
    env' = env.perform ops := by
  induction h with
  | start => rfl
  | operation before op ih =>
    rw [ih, Env.perform_append]
    rfl
  | run before hrun ih =>
    rw [hrun.env_eq, Env.perform_append]
    show Env.perform _ _ = _
    rw [ih]

/-- Whatever operations have led to namespaces, the listing of the variables has their names in the
strict order of their bytes and shows a value under a name exactly if the name is bound to it, and
the last operation that touches a name has decided that. The same is true of the functions. So
operations that end in the same mapping end in the same listings, wherever they started. A run that
ends adds the operations that it issued, and there is no choice about which these are. -/
theorem listings_show_last_operations {env env' : Env} {ops : List Operation}
    (h : env.History ops env') :
    (env'.vars.entries.map Prod.fst).Pairwise Name.Precedes ∧
    (∀ x v, (x, v) ∈ env'.vars.entries ↔ env'.get? x = some v) ∧
    (∀ x, env'.get? x = (ops.filterMap (·.var? x)).getLast?.getD (env.get? x)) ∧
    env'.functions.names.Pairwise Name.Precedes ∧
    (∀ f, f ∈ env'.functions.names ↔ (env'.function? f).isSome) ∧
    (∀ f, env'.function? f = (ops.filterMap (·.function? f)).getLast?.getD (env.function? f)) ∧
    (∀ {other other' : Env} {ops' : List Operation}, other.History ops' other' →
      ((∀ x, env'.get? x = other'.get? x) → env'.vars.entries = other'.vars.entries) ∧
      ((∀ f, (env'.function? f).isSome = (other'.function? f).isSome) →
        env'.functions.names = other'.functions.names)) ∧
    ∀ {files : Files} {p : Program} {sink : Sink} {result : Option Error} {m : Machine},
      p.Ends files ⟨env', sink⟩ (.ended result m) →
      ∃ more, (∀ more', p.Issues files ⟨env', sink⟩ more' result m ↔ more' = more) ∧
        env.History (ops ++ more) m.env := by
  refine ⟨env'.vars.names_sorted, fun x v => env'.vars.mem_entries_iff, fun x => ?_,
    env'.functions.names_sorted, fun f => env'.functions.mem_names_iff, fun f => ?_,
    fun _ => ⟨Bindings.entries_eq, Bindings.names_eq⟩, fun hrun => ?_⟩
  · rw [h.env_eq, Env.get?_perform]
  · rw [h.env_eq, Env.function?_perform]
  · obtain ⟨more, hmore⟩ := hrun.exists_issues
    exact ⟨more, fun more' => ⟨fun hmore' => hmore'.unique hmore, fun heq => heq ▸ hmore⟩,
      h.run hmore⟩

def twoDeclarations : Program :=
  [.declare "é" none, .define "f" [], .declare "z" none]

/-- The run binds `z` again, and behind it `é` is removed. -/
theorem listing_behind_twoDeclarations :
    ∃ env, Env.empty.History
        [.define "z" (.truth true), .define "é" .null, .defineFunction "f" [], .define "z" .null,
          .remove "é"] env ∧
      ("z", .null) ∈ env.vars.entries ∧ (∀ v, ("é", v) ∉ env.vars.entries) ∧
      "f" ∈ env.functions.names := by
  have htrace (env : Env) : Runs (fun _ => .error .notFound) (Task.ofBlock twoDeclarations) env
      [.bound "é" .null, .stored "f" [], .bound "z" .null, .closed] (.ended none) :=
    .step (.declareNull "é") (.step (.define "f" []) (.step (.declareNull "z")
      (.step .close (.finished _))))
  have hissues : twoDeclarations.Issues (fun _ => .error .notFound)
      ⟨Env.empty.define "z" (.truth true), .unlimited⟩
      [.define "é" .null, .defineFunction "f" [], .define "z" .null] none _ :=
    ⟨⟨Outcome.ended_ne_outOfFuel _ _, 1, rfl⟩, _, _, htrace _, rfl, rfl⟩
  have hhistory := ((Env.History.start.operation (.define "z" (.truth true))).run
    hissues).operation (.remove "é")
  obtain ⟨-, hvars, hlast, -, hnames, hlast', -⟩ := listings_show_last_operations hhistory
  refine ⟨_, hhistory, (hvars _ _).mpr ?_, fun v hv => ?_, (hnames _).mpr ?_⟩
  · rw [hlast]
    rfl
  · have hnone := (hlast "é").symm.trans ((hvars _ _).mp hv)
    cases hnone
  · rw [hlast']
    rfl

end PiScript
