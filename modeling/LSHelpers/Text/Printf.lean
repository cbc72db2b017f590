import Mathlib.Data.List.TakeWhile

/-!
# Printing a format without arguments

`vsnprintf` where the format is all that is passed. A conversion that asks for an
argument, and a `%` at the end, have no defined behaviour then; `%%` prints a `%`.
Sizes are in bytes, and a result longer than an `int` can say is reported as a failure.
-/

namespace Printf

/-- What a format prints; `none` where the behaviour is undefined. -/
def expand : List Char → Option (List Char)
  | [] => some []
  | [c] => if c = '%' then none else some [c]
  | c :: d :: rest =>
      if c = '%' then
        if d = '%' then (expand rest).map fun out => '%' :: out else none
      else (expand (d :: rest)).map fun out => c :: out

theorem expand_cons_of_ne {c : Char} (h : c ≠ '%') (cs : List Char) :
    expand (c :: cs) = (expand cs).map fun out => c :: out := by
  cases cs with
  | nil => simp [expand, h]
  | cons d rest => rw [expand, if_neg h]

theorem expand_of_not_mem {l : List Char} (h : '%' ∉ l) : expand l = some l := by
  induction l with
  | nil => rfl
  | cons c cs ih =>
      rw [List.mem_cons, not_or] at h
      rw [expand_cons_of_ne (Ne.symm h.1), ih h.2]
      rfl

/-- What is printed is no longer than the format, and shorter where there is a `%`. -/
theorem length_of_expand {l out : List Char} (h : expand l = some out) :
    out.length ≤ l.length ∧ ('%' ∈ l → out.length < l.length) := by
  induction l using expand.induct generalizing out with
  | case1 =>
      obtain rfl := Option.some.inj h
      simp
  | case2 => simp [expand] at h
  | case3 c hc =>
      rw [expand_of_not_mem (by simpa using Ne.symm hc)] at h
      obtain rfl := Option.some.inj h
      simpa using Ne.symm hc
  | case4 rest ih =>
      simp only [expand, if_true, Option.map_eq_some_iff] at h
      rcases h with ⟨printed, hprinted, rfl⟩
      have hle := (ih hprinted).1
      simp only [List.length_cons]
      omega
  | case5 d rest hd => simp [expand, hd] at h
  | case6 c d rest hc ih =>
      rw [expand_cons_of_ne hc, Option.map_eq_some_iff] at h
      rcases h with ⟨printed, hprinted, rfl⟩
      rcases ih hprinted with ⟨hle, hlt⟩
      simp only [List.length_cons] at hle hlt ⊢
      refine ⟨by omega, ?_⟩
      intro hmem
      have hrest : '%' ∈ d :: rest := by
        cases List.mem_cons.mp hmem with
        | inl heq => exact absurd heq.symm hc
        | inr hrest => exact hrest
      have := hlt hrest
      omega

/-- A format prints only characters it has. -/
theorem subset_of_expand {l out : List Char} (h : expand l = some out) : out ⊆ l := by
  induction l using expand.induct generalizing out with
  | case1 =>
      obtain rfl := Option.some.inj h
      exact List.Subset.refl _
  | case2 => simp [expand] at h
  | case3 c hc =>
      rw [expand_of_not_mem (by simpa using Ne.symm hc)] at h
      obtain rfl := Option.some.inj h
      exact List.Subset.refl _
  | case4 rest ih =>
      simp only [expand, if_true, Option.map_eq_some_iff] at h
      rcases h with ⟨printed, hprinted, rfl⟩
      exact List.cons_subset_cons _ (List.subset_cons_of_subset _ (ih hprinted))
  | case5 d rest hd => simp [expand, hd] at h
  | case6 c d rest hc ih =>
      rw [expand_cons_of_ne hc, Option.map_eq_some_iff] at h
      rcases h with ⟨printed, hprinted, rfl⟩
      exact List.cons_subset_cons _ (ih hprinted)

/-- The part of a text a C function sees. -/
def cString (text : List Char) : List Char := text.takeWhile fun c => c != '\x00'

theorem cString_of_not_mem {text : List Char} (h : '\x00' ∉ text) : cString text = text := by
  unfold cString
  rw [List.takeWhile_eq_self_iff]
  intro c hc
  simp only [bne_iff_ne]
  intro heq
  exact h (heq ▸ hc)

/-- A text is printed as it is, if and only if it has no `%` and no end of string. -/
theorem expand_cString_eq_self_iff (text : List Char) :
    expand (cString text) = some text ↔ '%' ∉ text ∧ '\x00' ∉ text := by
  constructor
  · intro h
    rcases length_of_expand h with ⟨hle, hlt⟩
    have hprefix : cString text <+: text := List.takeWhile_prefix _
    have hsame : cString text = text := hprefix.eq_of_length_le hle
    constructor
    · intro hpercent
      have := hlt (hsame.symm ▸ hpercent)
      rw [hsame] at this
      omega
    · intro hnul
      rw [← hsame, cString] at hnul
      simpa using List.mem_takeWhile_imp hnul
  · intro h
    rw [cString_of_not_mem h.2]
    exact expand_of_not_mem h.1

/-! ## The C function -/

def intMax : Nat := 2147483647

/-- The conversion of a size to `int`. -/
def toInt (n : Nat) : Int := Int.bmod n 4294967296

def bytes (text : List Char) : Nat := (String.ofList text).utf8ByteSize

/-- The value `vsnprintf` returns, and the text in the buffer if it is there as a whole. -/
structure Printed where
  returned : Int
  text : Option (List Char)
deriving Repr, DecidableEq

/-- `vsnprintf` on a buffer of `n` bytes. -/
def vsnprintf (n : Nat) (format : List Char) : Option Printed :=
  (expand (cString format)).map fun out =>
    if bytes out ≤ intMax then ⟨bytes out, if bytes out < n then some out else none⟩
    else ⟨-1, none⟩

theorem toInt_le (n : Nat) : toInt n ≤ n := by
  unfold toInt Int.bmod
  dsimp only
  split <;> omega

theorem toInt_le_intMax (n : Nat) : toInt n ≤ intMax := by
  unfold toInt Int.bmod intMax
  dsimp only
  split <;> omega

theorem lt_of_lt_toInt {size n : Nat} (h : (size : Int) < toInt n) : size < n ∧ size < intMax := by
  constructor
  · exact Int.ofNat_lt.mp (Int.lt_of_lt_of_le h (toInt_le n))
  · exact Int.ofNat_lt.mp (Int.lt_of_lt_of_le h (toInt_le_intMax n))

end Printf
