import PiScript.Proofs.Machine.Simulation

/-!
# Rounds

An iteration and a loop run their block round by round, and each round goes on from the machine that
the one before has left. `ItemRounds` and `LoopRounds` say this block by block: which rounds there
are, on which machines the block was run in them, and how they came to an end. Executing the
statement goes through these rounds and no others (`forEach_ends_iff`, `loop_ends_iff`).
-/

namespace PiScript

/-! ## Blocks that end -/

/-- Executing the statement ends as the outcome says, given enough fuel. -/
def Stmt.Ends (files : Files) (s : Stmt) (m : Machine) (o : Outcome) : Prop :=
  o ≠ .outOfFuel ∧ ∃ fuel, Stmt.exec files fuel s m = o

/-- Running the statements as a block ends as the outcome says, given enough fuel. -/
def Program.BlockEnds (files : Files) (p : Program) (m : Machine) (o : Outcome) : Prop :=
  o ≠ .outOfFuel ∧ ∃ fuel, runBlock (Stmt.exec files fuel) p m = o

section

variable {files : Files} {p : Program} {m : Machine} {o o' : Outcome}

theorem Program.BlockEnds.exists_fuel (h : p.BlockEnds files m o) :
    ∃ k, ∀ fuel, k ≤ fuel → runBlock (Stmt.exec files fuel) p m = o := by
  obtain ⟨hne, k, hrun⟩ := h
  refine ⟨k, fun fuel hfuel => ?_⟩
  rw [runBlock_of_le hfuel (by rwa [hrun]), hrun]

theorem Program.BlockEnds.unique (h : p.BlockEnds files m o) (h' : p.BlockEnds files m o') :
    o = o' := by
  obtain ⟨k, hrun⟩ := h.exists_fuel
  obtain ⟨k', hrun'⟩ := h'.exists_fuel
  rw [← hrun _ (Nat.le_max_left k k'), hrun' _ (Nat.le_max_right k k')]

end

/-! ## Rounds of an iteration -/

def Machine.unbind (m : Machine) (name : String) : Machine :=
  { m with env := m.env.remove name }

/-- The rounds of an iteration over a list of items, from a machine on. Every round binds the
variable to its item, on whatever machine the round before has left, and runs the block there;
`starts` lists the machines that the block was run on. The first round that fails is the last one.
If none does, the variable is unbound in the end. -/
inductive ItemRounds (files : Files) (item : String) (body : Program) :
    List Value → Machine → (starts : List Machine) → Outcome → Prop where
  | finished (m : Machine) : ItemRounds files item body [] m [] (.done (m.unbind item))
  | next {v : Value} {vs : List Value} {m m₁ : Machine} {starts : List Machine} {o : Outcome}
      (round : body.BlockEnds files (m.define item v) (.done m₁))
      (rest : ItemRounds files item body vs m₁ starts o) :
      ItemRounds files item body (v :: vs) m (m.define item v :: starts) o
  | failed {v : Value} (vs : List Value) {m m₁ : Machine} {e : Error}
      (round : body.BlockEnds files (m.define item v) (.failed e m₁)) :
      ItemRounds files item body (v :: vs) m [m.define item v] (.failed e m₁)

/-- Runs the block for every value of a list and unbinds the variable behind the last one. -/
def runItems (files : Files) (fuel : Nat) (item : String) (body : Program) :
    List Value → Machine → Outcome
  | [], m => .done (m.unbind item)
  | v :: vs, m => (runBlock (Stmt.exec files fuel) body (m.define item v)).andThen
      (runItems files fuel item body vs)

/-- Items are counted out or taken one by one, in the order of their list. -/
theorem Items.run_eq_runItems (files : Files) (fuel : Nat) (item : String) (body : Program)
    (items : Items) (m : Machine) :
    (items.run (fun v m => runBlock (Stmt.exec files fuel) body (m.define item v)) m).andThen
      (fun m => .done (m.unbind item)) = runItems files fuel item body items.toList m := by
  cases items with
  | numbers first count =>
    show (runNumbers _ count first m).andThen _ =
      runItems files fuel item body ((List.range' first count).map ofCount) m
    -- `unbind` moves inwards, behind the last round.
    induction count generalizing first m with
    | zero => rfl
    | succ count ih =>
      rw [runNumbers, Outcome.andThen_assoc, List.range'_succ, List.map_cons, runItems]
      congr 1
      funext m
      exact ih m (first + 1)
  | chars cs =>
    show (runChars _ cs m).andThen _ = runItems files fuel item body (cs.map ofChar) m
    induction cs generalizing m with
    | nil => rfl
    | cons c cs ih =>
      rw [runChars, Outcome.andThen_assoc, List.map_cons, runItems]
      congr 1
      funext m
      exact ih m

section

variable {files : Files} {item : String} {body : Program} {vs : List Value} {m : Machine}
  {starts : List Machine} {o : Outcome}

theorem ItemRounds.ne_outOfFuel (h : ItemRounds files item body vs m starts o) : o ≠ .outOfFuel := by
  induction h with
  | finished m => simp
  | next round rest ih => exact ih
  | failed vs round => exact round.1

theorem exists_itemRounds {fuel : Nat} (hne : o ≠ .outOfFuel)
    (h : runItems files fuel item body vs m = o) :
    ∃ starts, ItemRounds files item body vs m starts o := by
  induction vs generalizing m with
  | nil =>
    obtain rfl : Outcome.done (m.unbind item) = o := h
    exact ⟨[], .finished m⟩
  | cons v vs ih =>
    rw [runItems] at h
    generalize hround : runBlock (Stmt.exec files fuel) body (m.define item v) = o' at h
    cases o' with
    | done m₁ =>
      obtain ⟨starts, hrest⟩ := ih h
      exact ⟨_, .next ⟨by simp, fuel, hround⟩ hrest⟩
    | failed e m₁ =>
      obtain rfl : Outcome.failed e m₁ = o := h
      exact ⟨_, .failed vs ⟨by simp, fuel, hround⟩⟩
    | outOfFuel => exact absurd h.symm hne

theorem ItemRounds.exists_fuel (h : ItemRounds files item body vs m starts o) :
    ∃ k, ∀ fuel, k ≤ fuel → runItems files fuel item body vs m = o := by
  -- The fuel that suffices for every round suffices for all of them.
  induction h with
  | finished m => exact ⟨0, fun _ _ => rfl⟩
  | next round rest ih =>
    obtain ⟨k, hround⟩ := round.exists_fuel
    obtain ⟨k', hrest⟩ := ih
    refine ⟨max k k', fun fuel hfuel => ?_⟩
    rw [runItems, hround fuel (by omega)]
    exact hrest fuel (by omega)
  | failed vs round =>
    obtain ⟨k, hround⟩ := round.exists_fuel
    refine ⟨k, fun fuel hfuel => ?_⟩
    rw [runItems, hround fuel hfuel]
    rfl

/-- An iteration goes through the rounds of the items that its variable has at the start. -/
theorem forEach_ends_iff {source : String} {v : Value} {items : Items}
    (hv : m.env.get? source = some v) (hitems : Items.ofValue? v = some items) :
    (Stmt.forEach source item body).Ends files m o ↔
      ∃ starts, ItemRounds files item body items.toList m starts o := by
  have hexec (fuel : Nat) : Stmt.exec files (fuel + 1) (.forEach source item body) m =
      runItems files fuel item body items.toList m := by
    rw [← Items.run_eq_runItems]
    simp only [Stmt.exec, hv, hitems]
    rfl
  constructor
  · rintro ⟨hne, fuel, hrun⟩
    cases fuel with
    | zero => exact absurd hrun.symm hne
    | succ fuel =>
      rw [hexec] at hrun
      exact exists_itemRounds hne hrun
  · rintro ⟨starts, h⟩
    obtain ⟨k, hrun⟩ := h.exists_fuel
    exact ⟨h.ne_outOfFuel, k + 1, by rw [hexec, hrun k (Nat.le_refl k)]⟩

end

/-! ## Rounds of a loop -/

/-- The rounds of a loop from a machine on. As long as the condition holds, a round runs the block
and then the step; `starts` lists the machines that the block was run on. An error in the condition
or in a round ends the loop. -/
inductive LoopRounds (files : Files) (cond step : Expr) (body : Program) :
    Machine → (starts : List Machine) → Outcome → Prop where
  | finished {m : Machine} (hcond : cond.evalCondition m.env = .ok false) :
      LoopRounds files cond step body m [] (.done m)
  | next {m m₁ m₂ : Machine} {starts : List Machine} {o : Outcome}
      (hcond : cond.evalCondition m.env = .ok true) (block : body.BlockEnds files m (.done m₁))
      (hstep : m₁.step step = .done m₂) (rest : LoopRounds files cond step body m₂ starts o) :
      LoopRounds files cond step body m (m :: starts) o
  | conditionFailed {m : Machine} {cause : Cause} (hcond : cond.evalCondition m.env = .error cause) :
      LoopRounds files cond step body m [] (m.fail cause)
  | roundFailed {m m₁ : Machine} {o : Outcome} {e : Error}
      (hcond : cond.evalCondition m.env = .ok true) (block : body.BlockEnds files m o)
      (hround : o.andThen (fun m => m.step step) = .failed e m₁) :
      LoopRounds files cond step body m [m] (.failed e m₁)

def loopRound (files : Files) (fuel : Nat) (step : Expr) (body : Program) (m : Machine) : Outcome :=
  (runBlock (Stmt.exec files fuel) body m).andThen fun m => m.step step

section

variable {files : Files} {cond step : Expr} {body : Program} {m : Machine}
  {starts starts' : List Machine} {o o' : Outcome}

theorem LoopRounds.ne_outOfFuel (h : LoopRounds files cond step body m starts o) :
    o ≠ .outOfFuel := by
  induction h with
  | next hcond block hstep rest ih => exact ih
  | _ => simp [Machine.fail]

theorem LoopRounds.unique (h : LoopRounds files cond step body m starts o)
    (h' : LoopRounds files cond step body m starts' o') : starts = starts' ∧ o = o' := by
  -- What the condition and the round come to leaves one rule for each round.
  induction h generalizing starts' o' with
  | finished hcond =>
    cases h' with
    | finished => exact ⟨rfl, rfl⟩
    | _ => simp_all
  | conditionFailed hcond =>
    cases h' <;> simp_all
  | next hcond block hstep rest ih =>
    cases h' with
    | next hcond' block' hstep' rest' =>
      cases block.unique block'
      cases hstep.symm.trans hstep'
      obtain ⟨rfl, rfl⟩ := ih rest'
      exact ⟨rfl, rfl⟩
    | roundFailed hcond' block' hround =>
      cases block.unique block'
      cases hstep.symm.trans hround
    | _ => simp_all
  | roundFailed hcond block hround =>
    cases h' with
    | next hcond' block' hstep' rest' =>
      cases block.unique block'
      cases hround.symm.trans hstep'
    | roundFailed hcond' block' hround' =>
      cases block.unique block'
      cases hround.symm.trans hround'
      exact ⟨rfl, rfl⟩
    | _ => simp_all

theorem exists_loopRounds {fuel count : Nat} (hne : o ≠ .outOfFuel)
    (h : runLoop cond.evalCondition (loopRound files fuel step body) count m = o) :
    ∃ starts, LoopRounds files cond step body m starts o := by
  induction count generalizing m with
  | zero => exact absurd h.symm hne
  | succ count ih =>
    rw [runLoop] at h
    cases hcond : cond.evalCondition m.env with
    | error cause =>
      rw [hcond] at h
      obtain rfl : m.fail cause = o := h
      exact ⟨[], .conditionFailed hcond⟩
    | ok b =>
      rw [hcond] at h
      cases b with
      | false =>
        obtain rfl : Outcome.done m = o := h
        exact ⟨[], .finished hcond⟩
      | true =>
        -- The loop goes on behind the round only if block and step both ended well.
        simp only [loopRound] at h
        generalize hblock : runBlock (Stmt.exec files fuel) body m = o₁ at h
        generalize hround : o₁.andThen (fun m => m.step step) = o₂ at h
        cases o₂ with
        | outOfFuel => exact absurd h.symm hne
        | failed e m₁ =>
          obtain rfl : Outcome.failed e m₁ = o := h
          have hne₁ : o₁ ≠ .outOfFuel := by
            rintro rfl
            cases hround
          exact ⟨[m], .roundFailed hcond ⟨hne₁, fuel, hblock⟩ hround⟩
        | done m₂ =>
          cases o₁ with
          | done m₁ =>
            obtain ⟨starts, hrest⟩ := ih h
            exact ⟨m :: starts, .next hcond ⟨by simp, fuel, hblock⟩ hround hrest⟩
          | _ => cases hround

theorem LoopRounds.exists_fuel (h : LoopRounds files cond step body m starts o) :
    ∃ k, ∀ fuel count, k ≤ fuel → k ≤ count →
      runLoop cond.evalCondition (loopRound files fuel step body) count m = o := by
  -- One more round takes one more unit of the count, and the block of each round its own fuel.
  induction h with
  | finished hcond =>
    refine ⟨1, fun fuel count _ hcount => ?_⟩
    obtain ⟨count, rfl⟩ := Nat.exists_eq_add_of_le' hcount
    rw [runLoop, hcond]
  | conditionFailed hcond =>
    refine ⟨1, fun fuel count _ hcount => ?_⟩
    obtain ⟨count, rfl⟩ := Nat.exists_eq_add_of_le' hcount
    rw [runLoop, hcond]
  | next hcond block hstep rest ih =>
    obtain ⟨k, hblock⟩ := block.exists_fuel
    obtain ⟨k', hrest⟩ := ih
    refine ⟨max k k' + 1, fun fuel count hfuel hcount => ?_⟩
    obtain ⟨count, rfl⟩ := Nat.exists_eq_add_of_le' (show 1 ≤ count by omega)
    rw [runLoop, hcond]
    simp only [loopRound, hblock fuel (by omega), Outcome.andThen, hstep]
    exact hrest fuel count (by omega) (by omega)
  | roundFailed hcond block hround =>
    obtain ⟨k, hblock⟩ := block.exists_fuel
    refine ⟨k + 1, fun fuel count hfuel hcount => ?_⟩
    obtain ⟨count, rfl⟩ := Nat.exists_eq_add_of_le' (show 1 ≤ count by omega)
    rw [runLoop, hcond]
    simp only [loopRound, hblock fuel (by omega), hround]
    rfl

theorem loop_ends_iff :
    (Stmt.loop cond step body).Ends files m o ↔
      ∃ starts, LoopRounds files cond step body m starts o := by
  have hexec (fuel : Nat) : Stmt.exec files (fuel + 1) (.loop cond step body) m =
      runLoop cond.evalCondition (loopRound files fuel step body) fuel m := by
    simp only [Stmt.exec]
    rfl
  constructor
  · rintro ⟨hne, fuel, hrun⟩
    cases fuel with
    | zero => exact absurd hrun.symm hne
    | succ fuel =>
      rw [hexec] at hrun
      exact exists_loopRounds hne hrun
  · rintro ⟨starts, h⟩
    obtain ⟨k, hrun⟩ := h.exists_fuel
    exact ⟨h.ne_outOfFuel, k + 1, by rw [hexec, hrun k k (Nat.le_refl k) (Nat.le_refl k)]⟩

end

end PiScript
