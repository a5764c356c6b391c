import PiScript.Proofs.Machine.Footprint

/-!
# Which variables a run can read

Every text in a program may refer to a variable, so a run reads whatever its code mentions: the
operands, the declared names and the names in the heads of iterations. It reads nothing else. Two
runs from namespaces that differ elsewhere stay together, at every sink and whatever functions and
files they come to.
-/

namespace PiScript

def Mentioned (C : Stmt → Prop) (x : String) : Prop :=
  ∃ s, C s ∧ x ∈ s.mentions

/-- The machines differ at most in variables outside `N`. -/
structure Machine.AgreeOn (N : String → Prop) (m m' : Machine) : Prop where
  sink_eq : m.sink = m'.sink
  functions_eq : m.env.functions = m'.env.functions
  vars_eq : ∀ x, N x → m.env.get? x = m'.env.get? x

namespace Machine.AgreeOn

variable {N : String → Prop} {m m' : Machine}

theorem define (h : m.AgreeOn N m') (x : String) (v : Value) :
    (m.define x v).AgreeOn N (m'.define x v) where
  sink_eq := h.sink_eq
  functions_eq := h.functions_eq
  vars_eq y hy := by
    show (m.env.define x v).get? y = (m'.env.define x v).get? y
    by_cases hyx : y = x
    · rw [hyx, Env.get?_define_self, Env.get?_define_self]
    · rw [Env.get?_define_of_ne _ _ hyx, Env.get?_define_of_ne _ _ hyx, h.vars_eq y hy]

theorem remove (h : m.AgreeOn N m') (x : String) :
    AgreeOn N { m with env := m.env.remove x } { m' with env := m'.env.remove x } where
  sink_eq := h.sink_eq
  functions_eq := h.functions_eq
  vars_eq y hy := by
    show (m.env.remove x).get? y = (m'.env.remove x).get? y
    by_cases hyx : y = x
    · rw [hyx, Env.get?_remove_self, Env.get?_remove_self]
    · rw [Env.get?_remove_of_ne _ hyx, Env.get?_remove_of_ne _ hyx, h.vars_eq y hy]

theorem store (h : m.AgreeOn N m') (f : String) (body : Program) :
    AgreeOn N { m with env := m.env.defineFunction f body }
      { m' with env := m'.env.defineFunction f body } where
  sink_eq := h.sink_eq
  functions_eq := congrArg (·.insert f body) h.functions_eq
  vars_eq y hy := h.vars_eq y hy

end Machine.AgreeOn

/-- Code keeps machines together that agree on what it mentions, as long as the functions it can
call come from the code as well. -/
theorem Code.lockstep {files : Files} {C : Stmt → Prop} {N : String → Prop} (hC : Code files C)
    (hN : ∀ x, Mentioned C x → N x) :
    Lockstep files N (fun s s' => C s ∧ s = s')
      (fun m m' => m.env.Holds C ∧ m.AgreeOn N m') where
  alike := by
    rintro s _ ⟨hs, rfl⟩
    exact Stmt.alike_self (fun t ht => ⟨hC.block hs t ht, rfl⟩)
      fun hload t ht => ⟨hC.file hload t ht, rfl⟩
  mentions hs x hx := hN x ⟨_, hs.1, hx⟩
  get?_eq h := h.2.vars_eq
  function?_rel {m m'} h f := by
    have hsame : m.env.function? f = m'.env.function? f :=
      congrArg (·.get? f) h.2.functions_eq
    rw [← hsame]
    cases hbody : m.env.function? f with
    | none => exact .none
    | some body => exact .some (List.forall₂_same.mpr fun t ht => ⟨h.1 f body hbody t ht, rfl⟩)
  define h x v := ⟨h.1, h.2.define x v⟩
  remove h x := ⟨h.1, h.2.remove x⟩
  store {m m' body body'} h hbody f := by
    -- The stored bodies are one and the same, and its statements are in the code.
    rw [List.forall₂_and_left, List.forall₂_eq_eq_eq] at hbody
    obtain ⟨hbody, rfl⟩ := hbody
    exact ⟨h.1.defineFunction hbody f, h.2.store f body⟩
  printLine h text := by
    refine Machine.printLine_below h.2.sink_eq (fun sink => ⟨h.1, ?_⟩) text
    exact ⟨rfl, h.2.functions_eq, h.2.vars_eq⟩

/-- From namespaces with the same functions that agree on every variable the code mentions, a
program runs alike: on the same sink both runs go on forever, or both end with the same result, the
same output and the same functions, and still agree on those variables. -/
theorem run_depends_only_on_mentioned {files : Files} {p : Program} {N : String → Prop}
    {env env' : Env} (hN : ∀ x, Mentioned (InCode files env p) x → N x)
    (hfunctions : env.functions = env'.functions)
    (hvars : ∀ x, N x → env.get? x = env'.get? x) (sink : Sink) :
    Program.RunAlike files (Machine.AgreeOn N) p p ⟨env, sink⟩ ⟨env', sink⟩ := by
  have hstep := (code_inCode files env p).lockstep hN
  have hp : List.Forall₂ (fun s s' => InCode files env p s ∧ s = s') p p :=
    List.forall₂_same.mpr fun s hs => ⟨.inl (.here hs), rfl⟩
  have hstart : Machine.AgreeOn N ⟨env, sink⟩ ⟨env', sink⟩ := ⟨rfl, hfunctions, hvars⟩
  have halike := hstep.runAlike (fun m m' h => congrArg Sink.flush h.2.sink_eq) hp
    ⟨holds_inCode files env p, hstart⟩
  exact halike.imp fun m m' h => h.2

def echoLoop : Program :=
  [.forEach "x" "i" [.print (some (.operand (.text "i")))], .call "f"]

theorem echoLoop_ignores_other_names :
    (∀ x, Mentioned (InCode (fun _ => .error .notFound) onlyX echoLoop) x → x ≠ "z") ∧
    ∃ m, Program.Ends (fun _ => .error .notFound) echoLoop
        ⟨onlyX.define "z" .null, .unlimited⟩
        (.ended (some ⟨.undeclaredFunction "f", none⟩) m) ∧
      m.sink.written = "a\n\nb\n\n".toUTF8 := by
  have hN : ∀ x, Mentioned (InCode (fun _ => .error .notFound) onlyX echoLoop) x → x ≠ "z" := by
    rintro x ⟨s, hs | ⟨_, _, hbody, -⟩ | ⟨_, _, hload, -⟩, hx⟩
    · simp only [echoLoop, Program.contains_cons, Stmt.block, Program.not_contains_nil,
        or_false] at hs
      rcases hs with rfl | rfl | rfl <;>
        simp [Stmt.mentions, Expr.names, Value.name?] at hx <;> grind
    · cases hbody
    · cases hload
  have hvars : ∀ x, x ≠ "z" → onlyX.get? x = (onlyX.define "z" .null).get? x :=
    fun x hx => (onlyX.get?_define_of_ne .null hx).symm
  have hfunctions : onlyX.functions = (onlyX.define "z" .null).functions := rfl
  have hrun : ∃ m, Program.Ends (fun _ => .error .notFound) echoLoop ⟨onlyX, .unlimited⟩
      (.ended (some ⟨.undeclaredFunction "f", none⟩) m) ∧
      m.sink.written = "a\n\nb\n\n".toUTF8 :=
    ⟨_, ⟨Outcome.ended_ne_outOfFuel _ _, 2, rfl⟩, by decide +kernel⟩
  obtain ⟨m, hrun, hwritten⟩ := hrun
  obtain ⟨m', hrun', hagree⟩ :=
    (run_depends_only_on_mentioned hN hfunctions hvars .unlimited).1 _ _ hrun
  refine ⟨hN, m', hrun', ?_⟩
  rw [← hagree.sink_eq, hwritten]

end PiScript
