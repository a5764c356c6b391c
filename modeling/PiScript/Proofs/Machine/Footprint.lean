import PiScript.Proofs.Machine.Agenda

/-!
# Which names a run can touch

There is one table of variables and one of functions, and a run changes them only at the names that
its code writes to. The code is the program, the stored functions and all files, because a call or
an inclusion can reach any of these; and what a run stores it takes from there.
-/

namespace PiScript

/-! ## Names that code writes to -/

/-- The statement occurs in the program, at any depth. -/
inductive Program.Contains : Program → Stmt → Prop where
  | here {p : Program} {s : Stmt} (h : s ∈ p) : Program.Contains p s
  | inside {p : Program} {t s : Stmt} (h : t ∈ p) (hs : Program.Contains t.block s) :
      Program.Contains p s

/-- The variable that a statement can bind: the one it declares, its loop variable, or the name on
the left side of its step. -/
def Stmt.assigns? : Stmt → Option String
  | .declare name _ => some name
  | .forEach _ item _ => some item
  | .loop _ (.binary _ (.text name) _) _ => some name
  | _ => none

def Stmt.defines? : Stmt → Option String
  | .define name _ => some name
  | _ => none

/-- The statement occurs in the program, in a stored function or in a file that can be read. -/
def InCode (files : Files) (env : Env) (p : Program) (s : Stmt) : Prop :=
  p.Contains s ∨
  (∃ name body, env.function? name = some body ∧ body.Contains s) ∨
  ∃ path body, files.load path = .ok body ∧ body.Contains s

@[simp]
theorem Program.not_contains_nil (s : Stmt) : ¬Program.Contains [] s := by
  rintro (h | ⟨h, -⟩) <;> cases h

@[simp]
theorem Program.contains_cons {t : Stmt} {p : Program} {s : Stmt} :
    Program.Contains (t :: p) s ↔ s = t ∨ t.block.Contains s ∨ p.Contains s := by
  constructor
  · rintro (h | ⟨h, hs⟩)
    · rcases List.mem_cons.mp h with rfl | h
      · exact .inl rfl
      · exact .inr (.inr (.here h))
    · rcases List.mem_cons.mp h with rfl | h
      · exact .inr (.inl hs)
      · exact .inr (.inr (.inside h hs))
  · rintro (rfl | hs | h | ⟨h, hs⟩)
    · exact .here List.mem_cons_self
    · exact .inside List.mem_cons_self hs
    · exact .here (List.mem_cons_of_mem t h)
    · exact .inside (List.mem_cons_of_mem t h) hs

theorem Program.Contains.block {p : Program} {s : Stmt} (h : p.Contains s) :
    ∀ t ∈ s.block, p.Contains t := by
  induction h with
  | here h => exact fun t ht => .inside h (.here ht)
  | inside h _ ih => exact fun t ht => .inside h (ih t ht)

theorem code_inCode (files : Files) (env : Env) (p : Program) :
    Code files (InCode files env p) where
  block h t ht := by
    rcases h with h | ⟨name, body, hbody, h⟩ | ⟨path, body, hbody, h⟩
    · exact .inl (h.block t ht)
    · exact .inr (.inl ⟨name, body, hbody, h.block t ht⟩)
    · exact .inr (.inr ⟨path, body, hbody, h.block t ht⟩)
  file hload t ht := .inr (.inr ⟨_, _, hload, .here ht⟩)

theorem holds_inCode (files : Files) (env : Env) (p : Program) :
    env.Holds (InCode files env p) :=
  fun name body hbody _ ht => .inr (.inl ⟨name, body, hbody, .here ht⟩)

/-! ## Changes at given names only -/

/-- The namespaces `after` differ from `before` only at the variables `A` and the functions `F`,
and no function is lost. -/
structure Env.Confined (A F : String → Prop) (before after : Env) : Prop where
  vars : ∀ x, ¬A x → after.get? x = before.get? x
  functions : ∀ f, ¬F f → after.function? f = before.function? f
  kept : ∀ f, (before.function? f).isSome → (after.function? f).isSome

namespace Env.Confined

variable {A F : String → Prop}

theorem refl (env : Env) : env.Confined A F env :=
  ⟨fun _ _ => rfl, fun _ _ => rfl, fun _ h => h⟩

theorem trans {env env₁ env₂ : Env} (h : env.Confined A F env₁) (h' : env₁.Confined A F env₂) :
    env.Confined A F env₂ where
  vars x hx := (h'.vars x hx).trans (h.vars x hx)
  functions f hf := (h'.functions f hf).trans (h.functions f hf)
  kept f hf := h'.kept f (h.kept f hf)

theorem define {x : String} (hx : A x) (env : Env) (v : Value) :
    env.Confined A F (env.define x v) where
  vars _ hy := env.get?_define_of_ne v fun h => hy (h ▸ hx)
  functions _ _ := rfl
  kept _ h := h

theorem remove {x : String} (hx : A x) (env : Env) : env.Confined A F (env.remove x) where
  vars _ hy := env.get?_remove_of_ne fun h => hy (h ▸ hx)
  functions _ _ := rfl
  kept _ h := h

theorem defineFunction {f : String} (hf : F f) (env : Env) (body : Program) :
    env.Confined A F (env.defineFunction f body) where
  vars _ _ := rfl
  functions g hg := env.function?_defineFunction_of_ne body fun h => hg (h ▸ hf)
  kept g hg := by
    by_cases hgf : g = f
    · rw [hgf, Env.function?_defineFunction_self]
      rfl
    · rw [Env.function?_defineFunction_of_ne _ _ hgf]
      exact hg

end Env.Confined

/-! ## Runs -/

def Assigned (C : Stmt → Prop) (x : String) : Prop :=
  ∃ s, C s ∧ s.assigns? = some x

def Defined (C : Stmt → Prop) (f : String) : Prop :=
  ∃ s, C s ∧ s.defines? = some f

theorem Expr.eq_binary_of_stepTarget {e : Expr} {name : String} (h : e.stepTarget = .ok name) :
    ∃ op right, e = .binary op (.text name) right := by
  unfold stepTarget at h
  split at h
  · split at h
    · split at h
      · cases h
        exact ⟨_, _, rfl⟩
      · cases h
    · cases h
  · cases h

theorem Effect.Of.confined {C : Stmt → Prop} {env : Env} {a : Effect} (h : a.Of C env) :
    env.Confined (Assigned C) (Defined C) (a.onEnv env) := by
  cases h with
  | blank => exact .refl env
  | print h he => exact .refl env
  | clear h => exact .define ⟨_, h, rfl⟩ env _
  | declare h he => exact .define ⟨_, h, rfl⟩ env _
  | item h v => exact .define ⟨_, h, rfl⟩ env v
  | leave h => exact .remove ⟨_, h, rfl⟩ env
  | step h htarget he =>
    obtain ⟨op, right, rfl⟩ := Expr.eq_binary_of_stepTarget htarget
    exact .define ⟨_, h, rfl⟩ env _
  | define h => exact .defineFunction ⟨_, h, rfl⟩ env _

theorem Effects.confined_behind {C : Stmt → Prop} {env : Env} {as : List Effect}
    (h : Effects C env as) : env.Confined (Assigned C) (Defined C) (env.behind as) := by
  induction h with
  | nil env => exact .refl env
  | cons h rest ih => exact h.confined.trans ih

theorem Effects.confined {C : Stmt → Prop} {as : List Effect} {ending : Ending} {m m' : Machine}
    {result : Option Error} (h : Effects C m.env as) (hplay : play as ending m = .ended result m') :
    m.env.Confined (Assigned C) (Defined C) m'.env := by
  obtain ⟨done, ⟨more, rfl⟩, henv⟩ := exists_done_of_play hplay
  rw [henv]
  exact h.of_append.confined_behind

theorem Program.exists_of_flush_eq_ended {o : Outcome} {result : Option Error} {m : Machine}
    (h : flush o = .ended result m) : ∃ r, o = .ended r m := by
  have hkeeps {r : Option Error} {m₁ : Machine} (h : flush (.ended r m₁) = .ended result m) :
      m₁ = m := by
    rw [flush_ended] at h
    exact (Outcome.ended_inj h).2
  cases o with
  | outOfFuel => exact absurd h.symm (Outcome.ended_ne_outOfFuel _ _)
  | done m₁ =>
    obtain rfl := hkeeps (r := none) h
    exact ⟨none, rfl⟩
  | failed e m₁ =>
    obtain rfl := hkeeps (r := some e) h
    exact ⟨some e, rfl⟩

/-- However a run ends, and on every sink, it has changed only variables that its code assigns and
functions that its code defines, and it has lost no function. -/
theorem run_changes_only_written_names {files : Files} {p : Program} {m m' : Machine}
    {result : Option Error} (hrun : p.Ends files m (.ended result m')) :
    (∀ x, ¬Assigned (InCode files m.env p) x → m'.env.get? x = m.env.get? x) ∧
    (∀ f, ¬Defined (InCode files m.env p) f → m'.env.function? f = m.env.function? f) ∧
    ∀ f, (m.env.function? f).isSome → (m'.env.function? f).isSome := by
  obtain ⟨-, fuel, hrun⟩ := hrun
  obtain ⟨as, ending, has, hplay⟩ := Program.run_played (code_inCode files m.env p) fuel
    (fun s hs => .inl (.here hs)) m.env (holds_inCode files m.env p)
  rw [hplay m.sink] at hrun
  obtain ⟨r, hended⟩ := Program.exists_of_flush_eq_ended hrun
  have hconfined := has.confined hended
  exact ⟨hconfined.vars, hconfined.functions, hconfined.kept⟩

/-- An iteration over `x` whose rounds declare `y`, and which then fails. -/
def declaringLoop : Program :=
  [.forEach "x" "i" [.declare "y" none], .call "f"]

def onlyX : Env :=
  Env.empty.define "x" (.text "ab")

theorem declaringLoop_keeps_source :
    ∃ m, Program.Ends (fun _ => .error .notFound) declaringLoop ⟨onlyX, .unlimited⟩
        (.ended (some ⟨.undeclaredFunction "f", none⟩) m) ∧
      ¬Assigned (InCode (fun _ => .error .notFound) onlyX declaringLoop) "x" ∧
      m.env.get? "x" = some (.text "ab") := by
  have hx : ¬Assigned (InCode (fun _ => .error .notFound) onlyX declaringLoop) "x" := by
    rintro ⟨s, hs | ⟨_, _, hbody, -⟩ | ⟨_, _, hload, -⟩, hassigns⟩
    · simp only [declaringLoop, Program.contains_cons, Stmt.block, Program.not_contains_nil,
        or_false] at hs
      rcases hs with rfl | rfl | rfl <;> simp [Stmt.assigns?] at hassigns
    · cases hbody
    · cases hload
  have hrun : ∃ m, Program.Ends (fun _ => .error .notFound) declaringLoop ⟨onlyX, .unlimited⟩
      (.ended (some ⟨.undeclaredFunction "f", none⟩) m) :=
    ⟨_, Outcome.ended_ne_outOfFuel _ _, 2, rfl⟩
  obtain ⟨m, hrun⟩ := hrun
  refine ⟨m, hrun, hx, ?_⟩
  rw [(run_changes_only_written_names hrun).1 "x" hx]
  rfl

end PiScript
