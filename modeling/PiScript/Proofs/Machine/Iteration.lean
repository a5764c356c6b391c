import PiScript.Proofs.Decimal.IntegerPart
import PiScript.Proofs.Machine.Rounds

/-!
# Iterations

The items of an iteration are those that its source has when the iteration starts: the numbers up to
its integer part, or its characters. Whatever the block does to the source, to the variable or to
the functions, every item gets its round, until one fails; and if none does, the variable is unbound
in the end, even if it was bound before and even if it is the source itself.
-/

namespace PiScript

/-! ## Items -/

/-- The items of a value. A number counts from one to its integer part, but no further than to the
largest signed 64-bit word; a text has its characters. -/
inductive Value.HasItems : Value → List Value → Prop where
  | number {d : Decimal} (h : d.scale.natAbs < 2 ^ 32) :
      Value.HasItems (.number d)
        ((List.range' 1 (min (Decimal.towardsZero d.toRat) (2 ^ 63 - 1)).toNat).map
          fun i : Nat => .number ⟨i, 0⟩)
  | text (s : String) : Value.HasItems (.text s) (s.toList.map fun c => .text (String.ofList [c]))

theorem Decimal.toNat_truncate {d : Decimal} (h : d.scale.natAbs < 2 ^ 32) :
    d.truncate.toNat = (min (towardsZero d.toRat) (2 ^ 63 - 1)).toNat := by
  rw [truncate_of_narrow h]
  unfold saturate minWord maxWord
  omega

theorem Value.HasItems.exists_items {v : Value} {vs : List Value} (h : v.HasItems vs) :
    ∃ items, Items.ofValue? v = some items ∧ items.toList = vs := by
  cases h with
  | number h =>
    rw [← Decimal.toNat_truncate h]
    exact ⟨_, rfl, rfl⟩
  | text s => exact ⟨_, rfl, rfl⟩

/-! ## What the rounds bind -/

section

variable {files : Files} {item : String} {body : Program} {vs : List Value} {m m' : Machine}
  {starts : List Machine} {o : Outcome}

/-- The block of a round finds the variable bound to the item of the round. -/
theorem ItemRounds.get?_starts (h : ItemRounds files item body vs m starts o) :
    ∀ i (hi : i < starts.length), starts[i].env.get? item = vs[i]? := by
  induction h with
  | finished m => simp
  | @next v vs m m₁ starts o round rest ih =>
    intro i hi
    cases i with
    | zero => exact Env.get?_define_self m.env item v
    | succ i => exact ih i (Nat.lt_of_succ_lt_succ hi)
  | @failed v vs m m₁ e round =>
    intro i hi
    obtain rfl : i = 0 := Nat.lt_one_iff.mp hi
    exact Env.get?_define_self m.env item v

theorem ItemRounds.of_done (h : ItemRounds files item body vs m starts (.done m')) :
    starts.length = vs.length ∧ m'.env.get? item = none := by
  generalize ho : Outcome.done m' = o at h
  induction h with
  | finished m =>
    cases ho
    exact ⟨rfl, Env.get?_remove_self m.env item⟩
  | next round rest ih =>
    obtain ⟨hlength, hnone⟩ := ih ho
    exact ⟨congrArg (· + 1) hlength, hnone⟩
  | failed vs round => cases ho

theorem ItemRounds.of_failed {e : Error}
    (h : ItemRounds files item body vs m starts (.failed e m')) :
    ∃ last, starts.getLast? = some last ∧ body.BlockEnds files last (.failed e m') := by
  generalize ho : Outcome.failed e m' = o at h
  induction h with
  | finished m => cases ho
  | @next v vs m m₁ starts o round rest ih =>
    obtain ⟨last, hlast, hfailed⟩ := ih ho
    exact ⟨last, by rw [List.getLast?_cons, hlast]; rfl, hfailed⟩
  | failed vs round =>
    cases ho
    exact ⟨_, rfl, round⟩

end

/-! ## Iterations without items -/

theorem forEach_of_unbound (files : Files) {source : String} (item : String) (body : Program)
    {m : Machine} (h : m.env.get? source = none) :
    (Stmt.forEach source item body).Ends files m (.failed ⟨.undeclaredVariable source, none⟩ m) := by
  refine ⟨by simp, 1, ?_⟩
  simp only [Stmt.exec, h, Machine.fail]

theorem forEach_of_no_items (files : Files) {source : String} (item : String) (body : Program)
    {m : Machine} {v : Value} (h : m.env.get? source = some v) (hv : Items.ofValue? v = none) :
    (Stmt.forEach source item body).Ends files m (.failed ⟨.notIterable v.sort, none⟩ m) := by
  refine ⟨by simp, 1, ?_⟩
  simp only [Stmt.exec, h, hv, Machine.fail]

/-! ## Iterations over items -/

/-- An iteration ends as the rounds of the items do that its source has at the start, and in no
other way. The block is run with the variable bound to each item in turn: for all items if no round
fails, and then the variable is unbound; otherwise up to the first round that fails, and everything
stays as that round has left it. An iteration over anything else fails and changes nothing. -/
theorem forEach_goes_through_items (files : Files) (source item : String) (body : Program)
    (m : Machine) :
    (∀ v vs, m.env.get? source = some v → v.HasItems vs →
      (∀ o, (Stmt.forEach source item body).Ends files m o ↔
        ∃ starts, ItemRounds files item body vs m starts o) ∧
      ∀ starts o, ItemRounds files item body vs m starts o →
        (∀ i (h : i < starts.length), starts[i].env.get? item = vs[i]?) ∧
        (∀ m', o = .done m' → starts.length = vs.length ∧ m'.env.get? item = none) ∧
        ∀ e m', o = .failed e m' →
          ∃ last, starts.getLast? = some last ∧ body.BlockEnds files last (.failed e m')) ∧
    (m.env.get? source = none →
      (Stmt.forEach source item body).Ends files m
        (.failed ⟨.undeclaredVariable source, none⟩ m)) ∧
    ∀ v, m.env.get? source = some v → ((∃ b, v = .truth b) ∨ v = .null) →
      (Stmt.forEach source item body).Ends files m (.failed ⟨.notIterable v.sort, none⟩ m) := by
  refine ⟨fun v vs hv hvs => ⟨fun o => ?_, fun starts o h => ⟨h.get?_starts, ?_, ?_⟩⟩, ?_, ?_⟩
  -- The values of the list are those that the loop counts out or takes from the text.
  · obtain ⟨items, hitems, rfl⟩ := hvs.exists_items
    exact forEach_ends_iff hv hitems
  · rintro m' rfl
    exact h.of_done
  · rintro e m' rfl
    exact h.of_failed
  · exact forEach_of_unbound files item body
  · rintro v hv (⟨b, rfl⟩ | rfl)
    · exact forEach_of_no_items files item body hv rfl
    · exact forEach_of_no_items files item body hv rfl

/-! A block that overwrites the source: the rounds stay, and afterwards the source has none. -/

def boundToDecimal : Machine :=
  ⟨Env.empty.define "n" (.number ⟨39, 1⟩), .unlimited⟩

def clearSource : Program :=
  [.declare "n" none]

theorem hasItems_boundToDecimal :
    Value.HasItems (.number ⟨39, 1⟩) [.number ⟨1, 0⟩, .number ⟨2, 0⟩, .number ⟨3, 0⟩] := by
  have hnum : (⟨39, 1⟩ : Decimal).toRat = ((39 : Int) : ℚ) / (10 : Nat) := by
    norm_num [Decimal.toRat]
  have h := Value.HasItems.number (d := ⟨39, 1⟩) (by decide)
  rw [hnum, Decimal.towardsZero_div] at h
  exact h

theorem overwritten_source_has_three_rounds :
    ∃ m' starts, (Stmt.forEach "n" "i" clearSource).Ends (fun _ => .error .notFound)
        boundToDecimal (.done m') ∧
      ItemRounds (fun _ => .error .notFound) "i" clearSource
        [.number ⟨1, 0⟩, .number ⟨2, 0⟩, .number ⟨3, 0⟩] boundToDecimal starts (.done m') ∧
      starts.length = 3 ∧ m'.env.get? "i" = none ∧
      (Stmt.forEach "i" "j" clearSource).Ends (fun _ => .error .notFound) m'
        (.failed ⟨.undeclaredVariable "i", none⟩ m') ∧
      (Stmt.forEach "n" "i" clearSource).Ends (fun _ => .error .notFound) m'
        (.failed ⟨.notIterable .null, none⟩ m') := by
  have hends : ∃ m', (Stmt.forEach "n" "i" clearSource).Ends (fun _ => .error .notFound)
      boundToDecimal (.done m') ∧ m'.env.get? "n" = some .null :=
    ⟨_, ⟨by simp, 2, rfl⟩, rfl⟩
  obtain ⟨m', hends, hn⟩ := hends
  obtain ⟨hiff, hrounds⟩ := (forEach_goes_through_items (fun _ => .error .notFound) "n" "i"
    clearSource boundToDecimal).1 _ _ rfl hasItems_boundToDecimal
  obtain ⟨starts, h⟩ := (hiff _).mp hends
  obtain ⟨hlength, hi⟩ := (hrounds starts _ h).2.1 m' rfl
  exact ⟨m', starts, hends, h, hlength, hi,
    (forEach_goes_through_items _ "i" "j" clearSource m').2.1 hi,
    (forEach_goes_through_items _ "n" "i" clearSource m').2.2 _ hn (.inr rfl)⟩

end PiScript
