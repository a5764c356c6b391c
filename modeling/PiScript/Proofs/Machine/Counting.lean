import Mathlib.Algebra.Order.Floor.Ring
import Mathlib.Data.Rat.Floor
import PiScript.Proofs.Machine.Rounds
import PiScript.Proofs.Value.Arithmetic

/-!
# Counting loops

A loop that adds a positive number to its variable as long as it is below a limit comes to an end,
provided that its block always does and leaves the variable alone. How many rounds are left is the
distance to the limit in steps, rounded up; every round lowers it by one, whatever the scales are at
which the numbers are written.
-/

namespace PiScript

/-! ## The limit of a sink -/

theorem Sink.limit_write (s : Sink) (text : String) : (s.write text).1.limit = s.limit := by
  simp only [Sink.write]
  split <;> rfl

theorem Machine.printLine_of_limit_none {m : Machine} (h : m.sink.limit = none) (text : String) :
    ∃ sink, m.printLine text = .done { m with sink := sink } := by
  have hfits (n : Nat) : m.sink.fits n = true := by
    rw [Sink.fits, h]
  simp only [Machine.printLine, Sink.write, hfits]
  exact ⟨_, rfl⟩

theorem Machine.respected_limit (limit : Option Nat) :
    Machine.Respected fun m m' => m = m' ∧ m.sink.limit = limit where
  env_eq h := by rw [h.1]
  setEnv env h := ⟨by rw [h.1], h.2⟩
  printLine {m m'} text h := by
    obtain ⟨rfl, hlimit⟩ := h
    have hwrite := m.sink.limit_write (text ++ "\n")
    unfold Machine.printLine
    generalize m.sink.write (text ++ "\n") = written at hwrite
    obtain ⟨sink, e⟩ := written
    cases e with
    | none => exact .done ⟨rfl, hwrite.trans hlimit⟩
    | some e => exact .failed _ ⟨rfl, hwrite.trans hlimit⟩

theorem Program.BlockEnds.limit_eq {files : Files} {p : Program} {m m' : Machine}
    (h : p.BlockEnds files m (.done m')) : m'.sink.limit = m.sink.limit := by
  obtain ⟨-, fuel, hrun⟩ := h
  have hlock := (Machine.respected_limit m.sink.limit).lockstep files
  have hbelow := hlock.runBlock_below (hlock.exec_below (Nat.le_refl fuel))
    (List.forall₂_same.mpr fun s _ => rfl) (p := p) ⟨rfl, rfl⟩
  rw [hrun] at hbelow
  cases hbelow with
  | done h => exact h.2

/-! ## Condition and step -/

def Expr.below (x : String) (limit : Decimal) : Expr :=
  .binary .smaller (.text x) (.number limit)

def Expr.increase (x : String) (d : Decimal) : Expr :=
  .binary .add (.text x) (.number d)

/-- The variable holds a decimal for the number `q`. -/
def Machine.HoldsNumber (m : Machine) (x : String) (q : ℚ) : Prop :=
  ∃ a, m.env.get? x = some (.number a) ∧ a.toRat = q

theorem Env.resolve_of_get? {env : Env} {x : String} {v : Value} (h : env.get? x = some v) :
    env.resolve (.text x) = v := by
  rw [Env.resolve, h]
  rfl

theorem evalCondition_below {m : Machine} {x : String} {q : ℚ} (h : m.HoldsNumber x q)
    (limit : Decimal) :
    (Expr.below x limit).evalCondition m.env = .ok (decide (q < limit.toRat)) := by
  obtain ⟨a, ha, rfl⟩ := h
  have heval : (Expr.below x limit).eval m.env = .ok (.truth (decide (a.toRat < limit.toRat))) := by
    rw [Expr.below, Expr.eval, Env.resolve_of_get? ha]
    exact Operator.apply_smaller_numbers a limit
  rw [Expr.evalCondition, heval]

theorem step_increase {m : Machine} {x : String} {q : ℚ} (h : m.HoldsNumber x q) (d : Decimal) :
    ∃ v, m.step (Expr.increase x d) = .done (m.define x v) ∧
      (m.define x v).HoldsNumber x (q + d.toRat) := by
  obtain ⟨a, ha, rfl⟩ := h
  obtain ⟨c, hsum, hc⟩ := Operator.apply_add_numbers a d
  have heval : (Expr.increase x d).eval m.env = .ok (.number c) := by
    rw [Expr.increase, Expr.eval, Env.resolve_of_get? ha]
    exact hsum
  refine ⟨.number c, ?_, c, Env.get?_define_self m.env x _, hc⟩
  simp only [Machine.step, heval]
  rfl

/-! ## Rounds left -/

/-- How many steps of `d` there are from `q` to the limit. -/
def roundsLeft (limit d q : ℚ) : Int :=
  ⌈(limit - q) / d⌉

theorem roundsLeft_pos_iff {limit d q : ℚ} (hd : 0 < d) : 0 < roundsLeft limit d q ↔ q < limit := by
  rw [roundsLeft, Int.ceil_pos, div_pos_iff_of_pos_right hd, sub_pos]

theorem roundsLeft_add {d : ℚ} (hd : 0 < d) (limit q : ℚ) :
    roundsLeft limit d (q + d) = roundsLeft limit d q - 1 := by
  have hsub : (limit - (q + d)) / d = (limit - q) / d - 1 := by
    rw [← sub_sub, sub_div, div_self hd.ne']
  rw [roundsLeft, hsub, Int.ceil_sub_one, roundsLeft]

theorem add_succ_steps (q d : ℚ) (n : Nat) : q + (n + 1 : Nat) * d = q + d + n * d := by
  rw [Nat.cast_succ, add_mul, one_mul, add_comm _ d, ← add_assoc]

section

variable {files : Files} {x : String} {limit d : Decimal} {body : Program} {bound : Option Nat}

/-- One round: the block and the step end well, and the variable has grown by the step. -/
theorem exists_round
    (hbody : ∀ m, m.sink.limit = bound → (∃ q, m.HoldsNumber x q) →
      ∃ m', body.BlockEnds files m (.done m') ∧ m'.env.get? x = m.env.get? x)
    {m : Machine} (hm : m.sink.limit = bound) {q : ℚ} (hq : m.HoldsNumber x q) :
    ∃ m₁ m₂, body.BlockEnds files m (.done m₁) ∧ m₁.step (Expr.increase x d) = .done m₂ ∧
      m₂.sink.limit = bound ∧ m₂.HoldsNumber x (q + d.toRat) := by
  obtain ⟨m₁, hblock, hx⟩ := hbody m hm ⟨q, hq⟩
  have hq₁ : m₁.HoldsNumber x q := by
    rw [Machine.HoldsNumber, hx]
    exact hq
  obtain ⟨v, hstep, hv⟩ := step_increase hq₁ d
  exact ⟨m₁, _, hblock, hstep, hblock.limit_eq.trans hm, hv⟩

theorem exists_counting_rounds (hd : 0 < d.toRat)
    (hbody : ∀ m, m.sink.limit = bound → (∃ q, m.HoldsNumber x q) →
      ∃ m', body.BlockEnds files m (.done m') ∧ m'.env.get? x = m.env.get? x)
    (n : Nat) {m : Machine} (hm : m.sink.limit = bound) {q : ℚ} (hq : m.HoldsNumber x q)
    (hn : (roundsLeft limit.toRat d.toRat q).toNat = n) :
    ∃ starts m', LoopRounds files (Expr.below x limit) (Expr.increase x d) body m starts
        (.done m') ∧
      starts.length = n ∧
      (∀ i (hi : i < starts.length), starts[i].HoldsNumber x (q + i * d.toRat)) ∧
      m'.HoldsNumber x (q + n * d.toRat) := by
  have hcond := evalCondition_below hq limit
  -- On the rounds left: none is left where the limit is reached.
  induction n generalizing m q with
  | zero =>
    have hreached : ¬q < limit.toRat := by
      rw [← roundsLeft_pos_iff hd]
      omega
    rw [decide_eq_false hreached] at hcond
    refine ⟨[], m, .finished hcond, rfl, by simp, ?_⟩
    rwa [Nat.cast_zero, zero_mul, add_zero]
  | succ n ih =>
    have hbelow : q < limit.toRat := by
      rw [← roundsLeft_pos_iff hd]
      omega
    rw [decide_eq_true hbelow] at hcond
    obtain ⟨m₁, m₂, hblock, hstep, hm₂, hq₂⟩ := exists_round (d := d) hbody hm hq
    have hn₂ : (roundsLeft limit.toRat d.toRat (q + d.toRat)).toNat = n := by
      rw [roundsLeft_add hd]
      omega
    obtain ⟨starts, m', hrest, hlength, hstarts, hlast⟩ :=
      ih hm₂ hq₂ hn₂ (evalCondition_below hq₂ limit)
    refine ⟨m :: starts, m', .next hcond hblock hstep hrest, congrArg (· + 1) hlength, ?_, ?_⟩
    · intro i hi
      cases i with
      | zero =>
        rw [Nat.cast_zero, zero_mul, add_zero]
        exact hq
      | succ i =>
        rw [add_succ_steps]
        exact hstarts i (Nat.lt_of_succ_lt_succ hi)
    · rw [add_succ_steps]
      exact hlast

end

/-- A loop that counts up to a limit in steps of a positive `d` ends well, if its block always does
and leaves the counter as it is. The block runs once for every step that fits below the limit; the
`i`-th run finds the counter `i` steps on, and the loop leaves it behind the last one. (Every block
writes an empty line, so only a sink without a limit can let it end well each time.) -/
theorem counting_loop_counts {files : Files} {x : String} {limit d a : Decimal} {body : Program}
    {m : Machine} (hx : m.env.get? x = some (.number a)) (hd : 0 < d.toRat)
    (hbody : ∀ m', m'.sink.limit = m.sink.limit → (∃ b, m'.env.get? x = some (.number b)) →
      ∃ m'', body.BlockEnds files m' (.done m'') ∧ m''.env.get? x = m'.env.get? x) :
    ∃ starts m', (Stmt.loop (Expr.below x limit) (Expr.increase x d) body).Ends files m (.done m') ∧
      LoopRounds files (Expr.below x limit) (Expr.increase x d) body m starts (.done m') ∧
      (∀ starts' o, LoopRounds files (Expr.below x limit) (Expr.increase x d) body m starts' o →
        starts' = starts) ∧
      (starts.length : Int) = max 0 ⌈(limit.toRat - a.toRat) / d.toRat⌉ ∧
      (∀ i (hi : i < starts.length), starts[i].HoldsNumber x (a.toRat + i * d.toRat)) ∧
      m'.HoldsNumber x (a.toRat + starts.length * d.toRat) := by
  have hbody' : ∀ m', m'.sink.limit = m.sink.limit → (∃ q, m'.HoldsNumber x q) →
      ∃ m'', body.BlockEnds files m' (.done m'') ∧ m''.env.get? x = m'.env.get? x := by
    rintro m' hm' ⟨-, b, hb, -⟩
    exact hbody m' hm' ⟨b, hb⟩
  -- How many rounds are left carries the induction over them.
  obtain ⟨starts, m', hrounds, hlength, hstarts, hlast⟩ :=
    exists_counting_rounds hd hbody' _ rfl ⟨a, hx, rfl⟩
      (Eq.refl (roundsLeft limit.toRat d.toRat a.toRat).toNat)
  refine ⟨starts, m', loop_ends_iff.mpr ⟨starts, hrounds⟩, hrounds, ?_, ?_, hstarts, ?_⟩
  · intro starts' o h
    exact (h.unique hrounds).1
  · rw [hlength, roundsLeft]
    omega
  · rwa [hlength]

/-! A block that takes a copy of the counter, and steps of `0.50` from `0.5`. -/

def copyCounter : Program :=
  [.declare "y" (some (.operand (.text "x")))]

def boundToHalf : Machine :=
  ⟨Env.empty.define "x" (.number ⟨5, 1⟩), .unlimited⟩

theorem copyCounter_blockEnds (files : Files) {m : Machine} (h : m.sink.limit = none) {v : Value}
    (hx : m.env.get? "x" = some v) :
    ∃ m', copyCounter.BlockEnds files m (.done m') ∧ m'.env.get? "x" = m.env.get? "x" := by
  have heval : (Expr.operand (.text "x")).eval m.env = .ok v := by
    rw [Expr.eval, Env.resolve_of_get? hx]
  obtain ⟨sink, hline⟩ := (m.define "y" v).printLine_of_limit_none h ""
  refine ⟨{ m.define "y" v with sink := sink }, ⟨by simp, 1, ?_⟩,
    m.env.get?_define_of_ne v (by decide : "x" ≠ "y")⟩
  rw [copyCounter, runBlock]
  simp only [Stmt.exec, heval, runBlock]
  exact hline

theorem four_half_steps_from_half :
    ∃ starts m', (Stmt.loop (.below "x" ⟨21, 1⟩) (.increase "x" ⟨50, 2⟩) copyCounter).Ends
        (fun _ => .error .notFound) boundToHalf (.done m') ∧
      LoopRounds (fun _ => .error .notFound) (.below "x" ⟨21, 1⟩) (.increase "x" ⟨50, 2⟩)
        copyCounter boundToHalf starts (.done m') ∧
      starts.length = 4 ∧ m'.HoldsNumber "x" (5 / 2) := by
  have hlimit : (⟨21, 1⟩ : Decimal).toRat = 21 / 10 := by norm_num [Decimal.toRat]
  have hstep : (⟨50, 2⟩ : Decimal).toRat = 1 / 2 := by norm_num [Decimal.toRat]
  have hstart : (⟨5, 1⟩ : Decimal).toRat = 1 / 2 := by norm_num [Decimal.toRat]
  obtain ⟨starts, m', hends, hrounds, -, hlength, -, hlast⟩ :=
    @counting_loop_counts (fun _ => .error .notFound) "x" ⟨21, 1⟩ ⟨50, 2⟩ ⟨5, 1⟩ copyCounter
      boundToHalf rfl (by rw [hstep]; norm_num)
      (fun m' hlimit hx => hx.elim fun _ hx => copyCounter_blockEnds _ hlimit hx)
  have hceil : ⌈((21 / 10 : ℚ) - 1 / 2) / (1 / 2)⌉ = 4 := by
    rw [Int.ceil_eq_iff]
    norm_num
  have hcount : starts.length = 4 := by
    rw [hlimit, hstep, hstart, hceil] at hlength
    omega
  refine ⟨starts, m', hends, hrounds, hcount, ?_⟩
  rw [hcount, hstep, hstart] at hlast
  norm_num at hlast
  exact hlast

end PiScript
