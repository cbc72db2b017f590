import LSHelpers.Json.Numbers

/-!
# `parseValue<uint64_t>` through a double

The one integer type that is read through a `double`. An integer arrives rounded to 53
significant bits, so above 2^53 most are changed, and the comparison with `UINT64_MAX`
is one with 2^64 and lets 2^64 itself through to the cast.
-/

namespace LSHelpers

open Rounding

/-- An integer is written in the JSON value, as a number or as a numeric string. -/
def Written (pb : Conversions) (value : JValue) (n : Int) : Prop :=
  ∃ x, value.numeric? = some x ∧ pb.exactValue x = some n

/-- An integer converts to the nearest double, without flags. -/
def RoundsToDouble (pb : Conversions) : Prop :=
  ∀ x (n : Int) d, pb.exactValue x = some n → pb.asDouble x d = (.ok, .finite (nearestInt 53 n))

/-- An integer in the range of `int64_t` converts exactly. -/
def ExactInt64 (pb : Conversions) : Prop :=
  ∀ x (n : Int) d, pb.exactValue x = some n → -2 ^ 63 ≤ n → n < 2 ^ 63 →
    pb.asInt64 x d = (.ok, Int64.ofInt n)

/-- What is asked of `parseValue<uint64_t>` on an integer. -/
structure Uint64Exact (pf : Platform) (pb : Conversions) (value : JValue) (n : Int) (d : UInt64) :
    Prop where
  succeeds : (parseValueUint64 pf pb value d).1 = .ok () ↔ 0 ≤ n ∧ n < 2 ^ 64
  stores : 0 ≤ n → n < 2 ^ 64 → ((parseValueUint64 pf pb value d).2.toNat : Int) = n
  castBelow : ∀ x, uint64Argument pf pb value = .ok x → ∃ q, x = .finite q ∧ q < 2 ^ 64
  agrees : 0 ≤ n → n < 2 ^ 63 → ∀ d',
    (parseValueInt64 pf pb value d').1 = .ok () ∧
      (parseValueInt64 pf pb value d').2.toInt = (parseValueUint64 pf pb value d).2.toNat

/-! ## The rounded integer -/

theorem uint64MaxAsDouble_eq : uint64MaxAsDouble = 2 ^ 64 := by
  have h : nearest 53 (2 ^ 64 - 1) = 2 ^ 64 := by decide
  rw [uint64MaxAsDouble, h]
  norm_num

theorem nearestInt_neg {n : Int} (hn : n < 0) : nearestInt 53 n < 0 := by
  have hpos : 0 < nearest 53 n.natAbs := nearest_pos (by decide) (by omega)
  rw [nearestInt, if_pos hn]
  omega

theorem nearestInt_nonneg {n : Int} (hn : 0 ≤ n) : nearestInt 53 n = nearest 53 n.toNat := by
  have habs : n.natAbs = n.toNat := by omega
  rw [nearestInt, if_neg (by omega), habs]

theorem nearestInt_eq_self_iff {n : Int} (hn : 0 ≤ n) :
    nearestInt 53 n = n ↔ Representable 53 n.toNat := by
  rw [nearestInt_nonneg hn, ← nearest_eq_self_iff_representable]
  omega

/-- The double 2^64 is what everything up to half the next gap rounds down to. -/
theorem nearestInt_le_iff {n : Int} (hn : 0 ≤ n) :
    nearestInt 53 n ≤ 2 ^ 64 ↔ n ≤ 2 ^ 64 + 2 ^ 11 := by
  rw [nearestInt_nonneg hn]
  constructor
  · intro h
    by_contra hgt
    have hmono : nearest 53 (2 ^ 64 + 2 ^ 11 + 1) ≤ nearest 53 n.toNat :=
      nearest_mono (by decide) (by omega)
    have hnext : nearest 53 (2 ^ 64 + 2 ^ 11 + 1) = 2 ^ 64 + 2 ^ 12 := by decide
    omega
  · intro h
    have hmono : nearest 53 n.toNat ≤ nearest 53 (2 ^ 64 + 2 ^ 11) :=
      nearest_mono (by decide) (by omega)
    have htie : nearest 53 (2 ^ 64 + 2 ^ 11) = 2 ^ 64 := by decide
    omega

theorem le_nearestInt {n : Int} (hn : 2 ^ 64 ≤ n) : 2 ^ 64 ≤ nearestInt 53 n := by
  have hmono : nearest 53 (2 ^ 64) ≤ nearest 53 n.toNat := nearest_mono (by decide) (by omega)
  have hself : nearest 53 (2 ^ 64) = 2 ^ 64 := by decide
  rw [nearestInt_nonneg (by omega)]
  omega

theorem modf_intCast (z : Int) : (Double.finite z).modf = (false, .finite z) := by
  simp [Double.modf]

theorem lt_intCast (z : Int) : (Double.finite z).lt 0 = decide (z < 0) := by
  simp [Double.lt]

theorem gt_intCast (z : Int) : (Double.finite z).gt uint64MaxAsDouble = decide (2 ^ 64 < z) := by
  rw [uint64MaxAsDouble_eq, Double.gt]
  have hcast : (2 : Rat) ^ 64 = ((2 ^ 64 : Int) : Rat) := by norm_num
  rw [hcast]
  simp only [gt_iff_lt, Int.cast_lt]

/-! ## The argument of the cast -/

section

variable {pf : Platform} {pb : Conversions} {value : JValue} {n : Int}

/-- The integer goes to the cast rounded, unless it is negative or beyond 2^64 by then. -/
theorem uint64Argument_written (pf : Platform) (hround : RoundsToDouble pb)
    (hn : Written pb value n) :
    if nearestInt 53 n < 0 ∨ 2 ^ 64 < nearestInt 53 n then
      ∃ e, uint64Argument pf pb value = .error e
    else uint64Argument pf pb value = .ok (.finite (nearestInt 53 n)) := by
  rcases hn with ⟨x, hx, hvalue⟩
  have hconvert := hround x n (.finite 0) hvalue
  generalize nearestInt 53 n = z at hconvert ⊢
  have hnumber : asNumber pf pb.asDouble value (.finite 0) = (.ok .ok, .finite z) := by
    simp only [asNumber, hx, hconvert]
  unfold uint64Argument
  rw [hnumber]
  simp only [lt_intCast, gt_intCast, modf_intCast, decide_eq_true_eq]
  by_cases hneg : z < 0
  · rw [if_pos hneg, if_pos (.inl hneg)]
    exact ⟨_, rfl⟩
  · by_cases hbig : 2 ^ 64 < z
    · rw [if_neg hneg, if_pos hbig, if_pos (.inr hbig)]
      exact ⟨_, rfl⟩
    · rw [if_neg hneg, if_neg hbig, if_neg (by omega)]
      rfl

theorem castToUint64_intCast {z : Int} (hz : 0 ≤ z) (hlt : z < 2 ^ 64) :
    ((castToUint64 pb (.finite z)).toNat : Int) = z := by
  have hrange : (-1 : Rat) < z ∧ (z : Rat) < 2 ^ 64 := by
    constructor
    · exact_mod_cast (by omega : (-1 : Int) < z)
    · exact_mod_cast hlt
  have hsize : z.toNat < UInt64.size := by
    rw [UInt64.size]
    omega
  rw [castToUint64, if_pos hrange, Int.floor_intCast, UInt64.toNat_ofNat_of_lt' hsize]
  omega

/-- In the range of `int64_t` the sibling stores the integer itself. -/
theorem parseValueInt64_written (pf : Platform) (hexact : ExactInt64 pb) (hn : Written pb value n)
    (hlo : -2 ^ 63 ≤ n) (hhi : n < 2 ^ 63) (d : Int64) :
    (parseValueInt64 pf pb value d).1 = .ok () ∧
      (parseValueInt64 pf pb value d).2.toInt = n := by
  rcases hn with ⟨x, hx, hvalue⟩
  have hconvert := hexact x n d hvalue hlo hhi
  have hparse : parseValueInt64 pf pb value d = (.ok (), Int64.ofInt n) := by
    simp only [parseValueInt64, parseDirect, asNumber, hx, hconvert]
    rfl
  rw [hparse]
  exact ⟨rfl, Int64.toInt_ofInt_of_le hlo hhi⟩

/-- A refusal is right about the integers outside the range. -/
theorem uint64Exact_of_error {e : JsonParseError} (he : uint64Argument pf pb value = .error e)
    (hout : ¬ (0 ≤ n ∧ n < 2 ^ 64)) (d : UInt64) : Uint64Exact pf pb value n d where
  succeeds := by
    rw [parseValueUint64, he]
    exact iff_of_false (by simp) hout
  stores := fun hlo hhi => absurd ⟨hlo, hhi⟩ hout
  castBelow := by simp [he]
  agrees := by omega

/-- So is a cast of the integer itself about those inside. -/
theorem uint64Exact_of_argument (hexact : ExactInt64 pb) (hn : Written pb value n)
    (hargument : uint64Argument pf pb value = .ok (.finite n)) (hlo : 0 ≤ n) (hhi : n < 2 ^ 64)
    (d : UInt64) : Uint64Exact pf pb value n d := by
  have hparse : parseValueUint64 pf pb value d = (.ok (), castToUint64 pb (.finite n)) := by
    rw [parseValueUint64, hargument]
  have hcast : ((castToUint64 pb (.finite n)).toNat : Int) = n := castToUint64_intCast hlo hhi
  refine ⟨?_, ?_, ?_, ?_⟩
  · rw [hparse]
    exact iff_of_true rfl ⟨hlo, hhi⟩
  · intro _ _
    rw [hparse]
    exact hcast
  · intro x hx
    rw [hargument] at hx
    refine ⟨n, (Except.ok.inj hx).symm, ?_⟩
    exact_mod_cast hhi
  · intro _ hrange d'
    rcases parseValueInt64_written pf hexact hn (by omega) hrange d' with ⟨hok, hstored⟩
    refine ⟨hok, ?_⟩
    rw [hparse, hstored]
    exact hcast.symm

/-- `parseValue<uint64_t>` is right about a negative integer, one below 2^64 that a double
holds, and one that rounds to more than 2^64; of all others it is wrong. -/
theorem uint64Exact_iff (pf : Platform) (hround : RoundsToDouble pb) (hexact : ExactInt64 pb)
    (hn : Written pb value n) (d : UInt64) :
    Uint64Exact pf pb value n d ↔
      n < 0 ∨ (n < 2 ^ 64 ∧ Representable 53 n.toNat) ∨ 2 ^ 64 + 2 ^ 11 < n := by
  have hargument := uint64Argument_written pf hround hn
  by_cases hneg : n < 0
  · have hz := nearestInt_neg hneg
    rw [if_pos (.inl hz)] at hargument
    rcases hargument with ⟨e, he⟩
    exact iff_of_true (uint64Exact_of_error he (by omega) d) (.inl hneg)
  · have hnonneg : 0 ≤ n := not_lt.mp hneg
    have hle := nearestInt_le_iff hnonneg
    by_cases hlarge : 2 ^ 64 + 2 ^ 11 < n
    · rw [if_pos (by omega)] at hargument
      rcases hargument with ⟨e, he⟩
      exact iff_of_true (uint64Exact_of_error he (by omega) d) (.inr (.inr hlarge))
    · have hzero : 0 ≤ nearestInt 53 n := by
        rw [nearestInt_nonneg hnonneg]
        omega
      rw [if_neg (by omega)] at hargument
      constructor
      · intro h
        rcases h.castBelow _ hargument with ⟨q, hq, hlt⟩
        have hbelow : nearestInt 53 n < 2 ^ 64 := by
          rw [← Double.finite.inj hq] at hlt
          exact_mod_cast hlt
        have hsmall : n < 2 ^ 64 := by
          by_contra hge
          have hrounded := le_nearestInt (not_lt.mp hge)
          omega
        have hstores := h.stores hnonneg hsmall
        rw [parseValueUint64, hargument] at hstores
        dsimp only at hstores
        rw [castToUint64_intCast hzero hbelow] at hstores
        exact .inr (.inl ⟨hsmall, (nearestInt_eq_self_iff hnonneg).mp hstores⟩)
      · intro h
        rcases h with h | h | h
        · omega
        · rw [(nearestInt_eq_self_iff hnonneg).mpr h.2] at hargument
          exact uint64Exact_of_argument hexact hn hargument hnonneg h.1 d
        · omega

end

/-! ## On conversions that behave as documented -/

theorem clamping_roundsToDouble (numericValue : String → Option Rat) :
    RoundsToDouble (.clamping numericValue) := by
  intro x n d h
  cases x with
  | number q =>
      obtain rfl : q = n := Option.some.inj h
      simp [Conversions.clamping, Conversions.clamping.convert]
  | numericString s =>
      have hs : numericValue s = some (n : Rat) := h
      simp [Conversions.clamping, Conversions.clamping.convert, hs]

theorem toRange_intCast (lo hi : Int) {n : Int} (hlo : lo ≤ n) (hhi : n ≤ hi) :
    toRange lo hi n = (.ok, n) := by
  have hnotBelow : ¬ (n : Rat) < lo := by exact_mod_cast not_lt.mpr hlo
  have hnotAbove : ¬ (n : Rat) > hi := by exact_mod_cast not_lt.mpr hhi
  rw [toRange, if_neg hnotBelow, if_neg hnotAbove, if_pos (Rat.den_intCast n), Rat.num_intCast]

theorem clamping_exactInt64 (numericValue : String → Option Rat) :
    ExactInt64 (.clamping numericValue) := by
  intro x n d h hlo hhi
  have hrange : toRange (-9223372036854775808) 9223372036854775807 n = (.ok, n) :=
    toRange_intCast _ _ (by omega) (by omega)
  cases x with
  | number q =>
      obtain rfl : q = n := Option.some.inj h
      simp [Conversions.clamping, Conversions.clamping.convert, hrange]
  | numericString s =>
      have hs : numericValue s = some (n : Rat) := h
      simp [Conversions.clamping, Conversions.clamping.convert, hs, hrange]

/-- 2^53 + 1 is stored as 2^53. -/
theorem uint64_rounded :
    ¬ Uint64Exact .ofEmptyObject (.clamping fun _ => none) (.valid (.number 9007199254740993))
      9007199254740993 0 := by
  intro h
  have hstored : (parseValueUint64 .ofEmptyObject (.clamping fun _ => none)
      (.valid (.number 9007199254740993)) 0).2.toNat = 9007199254740992 := by decide
  have hstores := h.stores (by decide) (by decide)
  rw [hstored] at hstores
  exact absurd hstores (by decide)

/-- 2^60 fits in a double. -/
theorem uint64_exact :
    Uint64Exact .ofEmptyObject (.clamping fun _ => none) (.valid (.number (2 ^ 60 : Int)))
      (2 ^ 60) 0 :=
  (uint64Exact_iff .ofEmptyObject (clamping_roundsToDouble fun _ => none)
    (clamping_exactInt64 fun _ => none) ⟨_, rfl, rfl⟩ 0).mpr
    (.inr (.inl ⟨by decide, 1, 60, by decide, by decide⟩))

end LSHelpers
