/-!
# Decimal digits

The digits of a natural number, most significant first. They are taken off eighteen at a time, so
that the digits of a large number cost few divisions of large numbers; `digits_eq_toDigits` says
that nothing else depends on this.
-/

namespace PiScript

namespace Decimal

def tenPow (n : Nat) : Nat :=
  Nat.pow 10 n

theorem tenPow_succ (n : Nat) : tenPow (n + 1) = tenPow n * 10 :=
  rfl

def chunkDigits : Nat := 18

def chunk : Nat := 1000000000000000000

/-- Puts the last `count` digits of a number in front of `acc`, leading zeros included. -/
def pushDigits : (count n : Nat) → (acc : List Char) → List Char
  | 0, _, acc => acc
  | count + 1, n, acc => pushDigits count (n / 10) (Nat.digitChar (n % 10) :: acc)

def digitsOnto (n : Nat) (acc : List Char) : List Char :=
  if _h : n < chunk then Nat.toDigits 10 n ++ acc
  else digitsOnto (n / chunk) (pushDigits chunkDigits (n % chunk) acc)
termination_by n
decreasing_by
  unfold chunk at _h ⊢
  omega

def digits (n : Nat) : List Char :=
  digitsOnto n []

/-- Digits behind those of `q` write `q` shifted by as many places. -/
theorem toDigits_append_pushDigits {q : Nat} (hq : 0 < q) (count : Nat) :
    ∀ {r : Nat}, r < tenPow count → ∀ acc : List Char,
      Nat.toDigits 10 q ++ pushDigits count r acc =
        Nat.toDigits 10 (tenPow count * q + r) ++ acc := by
  induction count with
  | zero =>
    intro r hr acc
    have hr0 : r = 0 := Nat.lt_one_iff.mp hr
    have h1 : tenPow 0 * q + r = q := by
      rw [hr0, Nat.add_zero]
      exact Nat.one_mul q
    rw [h1]
    rfl
  | succ count ih =>
    intro r hr acc
    rw [tenPow_succ] at hr
    have hlt : r / 10 < tenPow count := by omega
    have hpos : 0 < tenPow count * q + r / 10 :=
      Nat.lt_of_lt_of_le (Nat.mul_pos (Nat.lt_of_le_of_lt (Nat.zero_le _) hlt) hq)
        (Nat.le_add_right _ _)
    have hdigit : r % 10 < 10 := Nat.mod_lt r (by decide)
    -- The last digit of `r` is split off: the others belong to the higher places.
    have hsum : 10 * (tenPow count * q + r / 10) + r % 10 = tenPow (count + 1) * q + r := by
      rw [tenPow_succ, Nat.mul_right_comm, Nat.mul_comm 10]
      omega
    rw [pushDigits, ih hlt, ← hsum, ← Nat.toDigits_append_toDigits (by decide) hpos hdigit,
      Nat.toDigits_of_lt_base hdigit, List.append_assoc]
    rfl

theorem digitsOnto_eq (n : Nat) (acc : List Char) :
    digitsOnto n acc = Nat.toDigits 10 n ++ acc := by
  fun_induction digitsOnto n acc with
  | case1 n acc h => rfl
  | case2 n acc h ih =>
    have hq : 0 < n / chunk := Nat.div_pos (Nat.not_lt.mp h) (by decide)
    have hr : n % chunk < tenPow chunkDigits := Nat.mod_lt n (by decide)
    have hn : tenPow chunkDigits * (n / chunk) + n % chunk = n := Nat.div_add_mod n chunk
    rw [ih, toDigits_append_pushDigits hq chunkDigits hr, hn]

theorem digits_eq_toDigits (n : Nat) : digits n = Nat.toDigits 10 n := by
  rw [digits, digitsOnto_eq, List.append_nil]

end Decimal

end PiScript
