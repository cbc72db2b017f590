import Mathlib.Algebra.Order.Ring.Nat
import Mathlib.Data.Nat.Log

/-!
# Rounding to a significand of a fixed width

`nearest p n` is the natural number with a significand of at most `p` bits that is
nearest to `n`, the even one of two that are equally near; the exponent has no bound.
The spacing of such numbers around `n` is `unit p n`, and everything below is about
the quotient and the remainder of `n` by it.
-/

namespace Rounding

/-- The place of the last significand bit of `n`. -/
def unit (p n : Nat) : Nat := 2 ^ (n.log2 + 1 - p)

/-- The remainder is dropped below half a unit, and at half a unit under an even quotient. -/
def roundsDown (p n : Nat) : Bool :=
  decide (2 * (n % unit p n) < unit p n) ||
    decide (2 * (n % unit p n) = unit p n) && decide (n / unit p n % 2 = 0)

def nearest (p n : Nat) : Nat :=
  if roundsDown p n then n / unit p n * unit p n else (n / unit p n + 1) * unit p n

/-- The numbers whose significand fits in `p` bits. -/
def Representable (p n : Nat) : Prop := ∃ m k, m < 2 ^ p ∧ n = m * 2 ^ k

/-- Rounding to nearest is symmetric in the sign. -/
def nearestInt (p : Nat) (n : Int) : Int :=
  if n < 0 then -(nearest p n.natAbs : Int) else nearest p n.natAbs

variable {p n m : Nat}

theorem unit_pos (p n : Nat) : 0 < unit p n := Nat.two_pow_pos _

theorem floor_le_nearest (p n : Nat) : n / unit p n * unit p n ≤ nearest p n := by
  unfold nearest
  split
  · exact Nat.le_refl _
  · exact Nat.mul_le_mul_right _ (by omega)

theorem nearest_le_ceil (p n : Nat) : nearest p n ≤ (n / unit p n + 1) * unit p n := by
  unfold nearest
  split
  · exact Nat.mul_le_mul_right _ (by omega)
  · exact Nat.le_refl _

theorem lt_ceil (p n : Nat) : n < (n / unit p n + 1) * unit p n := by
  rw [Nat.mul_comm]
  exact Nat.lt_mul_div_succ n (unit_pos p n)

/-- Rounding is exact at the multiples of the unit and nowhere else. -/
theorem nearest_eq_self_iff : nearest p n = n ↔ unit p n ∣ n := by
  constructor
  · intro h
    unfold nearest at h
    split at h
    · exact Dvd.intro_left _ h
    · have hlt := lt_ceil p n
      omega
  · intro h
    have hmod : n % unit p n = 0 := Nat.mod_eq_zero_of_dvd h
    have hdown : roundsDown p n = true := by simp [roundsDown, hmod, unit_pos]
    rw [nearest, if_pos hdown, Nat.div_mul_cancel h]

/-! ## The binade of a number -/

theorem unit_dvd_low (hp : 1 ≤ p) (n : Nat) : unit p n ∣ 2 ^ n.log2 :=
  Nat.pow_dvd_pow 2 (by omega)

theorem unit_dvd_high (p n : Nat) : unit p n ∣ 2 ^ (n.log2 + 1) :=
  Nat.pow_dvd_pow 2 (by omega)

theorem low_le_nearest (hp : 1 ≤ p) (hn : n ≠ 0) : 2 ^ n.log2 ≤ nearest p n := by
  rcases unit_dvd_low hp n with ⟨c, hc⟩
  have hle : unit p n * c ≤ n := hc ▸ Nat.log2_self_le hn
  have hquot : c ≤ n / unit p n := by
    rw [Nat.le_div_iff_mul_le (unit_pos p n), Nat.mul_comm]
    exact hle
  calc 2 ^ n.log2 = c * unit p n := by rw [hc, Nat.mul_comm]
    _ ≤ n / unit p n * unit p n := Nat.mul_le_mul_right _ hquot
    _ ≤ nearest p n := floor_le_nearest p n

theorem nearest_le_high (p n : Nat) : nearest p n ≤ 2 ^ (n.log2 + 1) := by
  rcases unit_dvd_high p n with ⟨c, hc⟩
  have hlt : n < unit p n * c := hc ▸ Nat.lt_log2_self
  have hquot : n / unit p n < c := Nat.div_lt_of_lt_mul hlt
  calc nearest p n ≤ (n / unit p n + 1) * unit p n := nearest_le_ceil p n
    _ ≤ c * unit p n := Nat.mul_le_mul_right _ hquot
    _ = 2 ^ (n.log2 + 1) := by rw [hc, Nat.mul_comm]

theorem nearest_pos (hp : 1 ≤ p) (hn : n ≠ 0) : 0 < nearest p n :=
  Nat.lt_of_lt_of_le (Nat.two_pow_pos _) (low_le_nearest hp hn)

theorem unit_dvd_iff : unit p n ∣ n ↔ Representable p n := by
  constructor
  · intro h
    refine ⟨n / unit p n, n.log2 + 1 - p, ?_, (Nat.div_mul_cancel h).symm⟩
    rw [Nat.div_lt_iff_lt_mul (unit_pos p n), unit, ← Nat.pow_add]
    exact Nat.lt_of_lt_of_le Nat.lt_log2_self (Nat.pow_le_pow_right (by omega) (by omega))
  · intro h
    rcases h with ⟨m, k, hm, rfl⟩
    by_cases hzero : m * 2 ^ k = 0
    · rw [hzero]
      exact Nat.dvd_zero _
    · have hlt : m * 2 ^ k < 2 ^ (p + k) := by
        rw [Nat.pow_add]
        exact Nat.mul_lt_mul_of_pos_right hm (Nat.two_pow_pos k)
      have hlog : (m * 2 ^ k).log2 < p + k := (Nat.log2_lt hzero).mpr hlt
      exact Nat.dvd_trans (Nat.pow_dvd_pow 2 (by omega)) (Nat.dvd_mul_left _ _)

theorem nearest_eq_self_iff_representable : nearest p n = n ↔ Representable p n :=
  nearest_eq_self_iff.trans unit_dvd_iff

/-! ## Order -/

/-- Inside a binade the unit is the same, and a smaller number that rounds up does so past a
quotient the larger one has reached. -/
theorem nearest_mono_of_unit_eq (hunit : unit p n = unit p m) (h : n ≤ m) :
    nearest p n ≤ nearest p m := by
  have hquot : n / unit p n ≤ m / unit p m := by
    rw [hunit]
    exact Nat.div_le_div_right h
  by_cases hsame : n / unit p n = m / unit p m
  · have hn := Nat.div_add_mod n (unit p n)
    have hm := Nat.div_add_mod m (unit p m)
    rw [hsame, hunit] at hn
    have hdown : roundsDown p m = true → roundsDown p n = true := by
      intro hdown
      simp only [roundsDown, Bool.or_eq_true, Bool.and_eq_true, decide_eq_true_eq] at hdown ⊢
      rw [hsame, hunit]
      omega
    unfold nearest
    by_cases hm' : roundsDown p m = true
    · rw [if_pos hm', if_pos (hdown hm'), hsame, hunit]
    · rw [if_neg hm', hsame, hunit]
      split
      · exact Nat.mul_le_mul_right _ (by omega)
      · exact Nat.le_refl _
  · calc nearest p n ≤ (n / unit p n + 1) * unit p n := nearest_le_ceil p n
      _ ≤ m / unit p m * unit p m := by
        rw [hunit] at hquot hsame ⊢
        exact Nat.mul_le_mul_right _ (by omega)
      _ ≤ nearest p m := floor_le_nearest p m

theorem nearest_mono (hp : 1 ≤ p) (h : n ≤ m) : nearest p n ≤ nearest p m := by
  by_cases hzero : n = 0
  · subst hzero
    have hself : nearest p 0 = 0 := nearest_eq_self_iff.mpr (Nat.dvd_zero _)
    rw [hself]
    exact Nat.zero_le _
  · have hm : m ≠ 0 := by omega
    have hlog : n.log2 ≤ m.log2 := (Nat.le_log2 hm).mpr (Nat.le_trans (Nat.log2_self_le hzero) h)
    by_cases hsame : n.log2 = m.log2
    · exact nearest_mono_of_unit_eq (by rw [unit, unit, hsame]) h
    · calc nearest p n ≤ 2 ^ (n.log2 + 1) := nearest_le_high p n
        _ ≤ 2 ^ m.log2 := Nat.pow_le_pow_right (by omega) (by omega)
        _ ≤ nearest p m := low_le_nearest hp hm

/-- The first number a double cannot hold goes down to the even neighbour, the next but one up. -/
example : nearest 53 (2 ^ 53 + 1) = 2 ^ 53 ∧ nearest 53 (2 ^ 53 + 3) = 2 ^ 53 + 4 := by decide

end Rounding
