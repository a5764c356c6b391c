import PiScript.Proofs.Machine.Effects

/-!
# Programs that come to an end

Loops, calls and inclusions can keep a program running; branches and iterations cannot. The items of
an iteration are fixed before its first round, so nothing that a block does to its source or to its
variable makes the iteration longer. What fuel is needed for is then the nesting of the statements
alone: as much of it as statements are nested brings the run to its end on every machine
(`bounded_program_ends`).
-/

namespace PiScript

/-! ## Bounded statements -/

mutual

/-- Executing the statement comes to no loop, call or inclusion. The body of a function is stored
and not executed, so it may hold any. -/
def Stmt.Bounded : Stmt → Prop
  | .inclusion _ => False
  | .print _ => True
  | .declare _ _ => True
  | .forEach _ _ body => Program.Bounded body
  | .loop _ _ _ => False
  | .branch _ body => Program.Bounded body
  | .define _ _ => True
  | .call _ => False

def Program.Bounded : List Stmt → Prop
  | [] => True
  | s :: rest => s.Bounded ∧ Program.Bounded rest

end

mutual

/-- How many statements are nested in one another, leaving out the bodies of functions. -/
def Stmt.nesting : Stmt → Nat
  | .forEach _ _ body => Program.nesting body + 1
  | .branch _ body => Program.nesting body + 1
  | _ => 1

def Program.nesting : List Stmt → Nat
  | [] => 0
  | s :: rest => max s.nesting (Program.nesting rest)

end

theorem Program.Bounded.of_mem {p : Program} (hp : Program.Bounded p) :
    ∀ s ∈ p, s.Bounded ∧ s.nesting ≤ Program.nesting p := by
  induction p with
  | nil => simp
  | cons t rest ih =>
    rw [Program.Bounded] at hp
    rw [List.forall_mem_cons, Program.nesting]
    refine ⟨⟨hp.1, by omega⟩, ?_⟩
    intro s hs
    have hrest := ih hp.2 s hs
    exact ⟨hrest.1, by omega⟩

/-! ## Enough fuel -/

theorem Outcome.andThen_ne_outOfFuel {o : Outcome} {next : Machine → Outcome} (h : o ≠ .outOfFuel)
    (hnext : ∀ m, next m ≠ .outOfFuel) : o.andThen next ≠ .outOfFuel := by
  cases o with
  | done m => exact hnext m
  | failed e m => simp [andThen]
  | outOfFuel => exact absurd rfl h

theorem Outcome.exists_ended {o : Outcome} (h : o ≠ .outOfFuel) :
    ∃ result m, o = .ended result m := by
  cases o with
  | done m => exact ⟨none, m, rfl⟩
  | failed e m => exact ⟨some e, m, rfl⟩
  | outOfFuel => exact absurd rfl h

theorem runBlock_ne_outOfFuel {exec : Stmt → Machine → Outcome} {p : Program}
    (hexec : ∀ s ∈ p, ∀ m, exec s m ≠ .outOfFuel) (m : Machine) :
    runBlock exec p m ≠ .outOfFuel := by
  induction p generalizing m with
  | nil => exact m.printLine_ne_outOfFuel ""
  | cons s rest ih =>
    rw [List.forall_mem_cons] at hexec
    exact Outcome.andThen_ne_outOfFuel (hexec.1 m) (ih hexec.2)

/-- Rounds that all come to an end are finitely many, whatever they do. -/
theorem Items.run_ne_outOfFuel {round : Value → Machine → Outcome}
    (hround : ∀ v m, round v m ≠ .outOfFuel) (items : Items) (m : Machine) :
    items.run round m ≠ .outOfFuel := by
  cases items with
  | numbers first count =>
    show runNumbers round count first m ≠ .outOfFuel
    induction count generalizing first m with
    | zero => simp [runNumbers]
    | succ count ih => exact Outcome.andThen_ne_outOfFuel (hround _ m) fun m => ih m (first + 1)
  | chars cs =>
    show runChars round cs m ≠ .outOfFuel
    induction cs generalizing m with
    | nil => simp [runChars]
    | cons c cs ih => exact Outcome.andThen_ne_outOfFuel (hround _ m) ih

theorem Stmt.exec_ne_outOfFuel (files : Files) {fuel : Nat} {s : Stmt} (hs : s.Bounded)
    (hfuel : s.nesting ≤ fuel) (m : Machine) : Stmt.exec files fuel s m ≠ .outOfFuel := by
  -- On the fuel: a block gets one unit less and is nested one less deep.
  induction fuel generalizing s m with
  | zero =>
    cases s <;> simp [nesting] at hfuel
  | succ fuel ih =>
    have hblock {body : Program} (hbody : Program.Bounded body)
        (hnesting : Program.nesting body ≤ fuel) (m : Machine) :
        runBlock (Stmt.exec files fuel) body m ≠ .outOfFuel := by
      apply runBlock_ne_outOfFuel
      intro s hs m
      have hmem := hbody.of_mem s hs
      exact ih hmem.1 (by omega) m
    cases s with
    | inclusion path => exact hs.elim
    | loop cond step body => exact hs.elim
    | call name => exact hs.elim
    | print e =>
      cases e with
      | none => exact m.printLine_ne_outOfFuel ""
      | some e =>
        simp only [Stmt.exec]
        cases e.eval m.env with
        | error cause => simp [Machine.fail]
        | ok v => exact m.printLine_ne_outOfFuel v.render
    | declare name e =>
      cases e with
      | none => simp [Stmt.exec]
      | some e =>
        simp only [Stmt.exec]
        cases e.eval m.env with
        | error cause => simp [Machine.fail]
        | ok v => simp
    | forEach source item body =>
      rw [nesting] at hfuel
      simp only [Stmt.exec]
      cases m.env.get? source with
      | none => simp [Machine.fail]
      | some v =>
        simp only
        cases Items.ofValue? v with
        | none => simp [Machine.fail]
        | some items =>
          apply Outcome.andThen_ne_outOfFuel
          · apply Items.run_ne_outOfFuel
            intro v m
            exact hblock hs (by omega) (m.define item v)
          · simp
    | branch cond body =>
      rw [nesting] at hfuel
      simp only [Stmt.exec]
      split
      · simp [Machine.fail]
      · exact hblock hs (by omega) m
      · simp
      · simp [Machine.fail]
    | define name body => simp [Stmt.exec]

theorem Program.flush_ne_outOfFuel {o : Outcome} (h : o ≠ .outOfFuel) : flush o ≠ .outOfFuel := by
  obtain ⟨result, m, rfl⟩ := Outcome.exists_ended h
  rw [Program.flush_ended]
  exact Outcome.ended_ne_outOfFuel _ m

theorem Program.run_ne_outOfFuel (files : Files) {fuel : Nat} {p : Program}
    (hp : Program.Bounded p) (hfuel : Program.nesting p ≤ fuel) (m : Machine) :
    p.run files fuel m ≠ .outOfFuel := by
  apply flush_ne_outOfFuel
  apply runBlock_ne_outOfFuel
  intro s hs m
  have hmem := hp.of_mem s hs
  exact Stmt.exec_ne_outOfFuel files hmem.1 (by omega) m

/-- A program that comes to no loop, call or inclusion ends, well or with an error, from all
namespaces and on every sink; and fuel for the nesting of its statements is enough for that,
whatever the machine. -/
theorem bounded_program_ends (files : Files) {p : Program} (hp : Program.Bounded p) (m : Machine) :
    ∃ result m', p.Ends files m (.ended result m') ∧
      ∀ fuel, Program.nesting p ≤ fuel → p.run files fuel m = .ended result m' := by
  have hne := Program.run_ne_outOfFuel files hp (Nat.le_refl (Program.nesting p)) m
  obtain ⟨result, m', hrun⟩ := Outcome.exists_ended hne
  refine ⟨result, m', ⟨Outcome.ended_ne_outOfFuel result m', Program.nesting p, hrun⟩, ?_⟩
  intro fuel hfuel
  rw [Program.run_of_le hfuel hne, hrun]

/-! An iteration over a text that its own rounds double, with another one over the doubled text
inside, which stores a function that would never end. -/

def doublingLoop : Program :=
  [.forEach "s" "c"
    [.declare "s" (some (.binary .add (.text "s") (.text "s"))),
      .forEach "s" "s" [.define "f" [.call "f"]]]]

theorem doublingLoop_ends :
    Program.Bounded doublingLoop ∧
    ∃ result m', Program.Ends (fun _ => .error .notFound) doublingLoop
        ⟨Env.empty.define "s" (.text "ab"), .unlimited⟩ (.ended result m') ∧
      ∀ fuel, 3 ≤ fuel → Program.run (fun _ => .error .notFound) fuel doublingLoop
        ⟨Env.empty.define "s" (.text "ab"), .unlimited⟩ = .ended result m' := by
  have hbounded : Program.Bounded doublingLoop := by
    simp [doublingLoop, Program.Bounded, Stmt.Bounded]
  exact ⟨hbounded, bounded_program_ends _ hbounded _⟩

end PiScript
