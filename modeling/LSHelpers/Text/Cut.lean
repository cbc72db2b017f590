import Mathlib.Data.List.Infix

/-!
# Cutting a list at a separator

A list is cut at the first place of a pattern, or at the last place of an element. In both
cases the cut is determined by the list, and what was joined with a separator of the right
kind comes apart into its parts.
-/

namespace Cut

variable {α : Type*}

/-- The pattern stands at the place `i`, and at none before it. -/
structure FirstAt (pattern l : List α) (i : Nat) : Prop where
  here : pattern <+: l.drop i
  before : ∀ j < i, ¬ pattern <+: l.drop j

variable {pattern l a b : List α} {c : α} {i j : Nat}

theorem FirstAt.unique (h : FirstAt pattern l i) (h' : FirstAt pattern l j) : i = j := by
  by_contra hne
  rcases Nat.lt_or_gt_of_ne hne with hlt | hgt
  · exact h'.before i hlt h.here
  · exact h.before j hgt h'.here

theorem FirstAt.split (h : FirstAt pattern l i) :
    l = l.take i ++ pattern ++ l.drop (i + pattern.length) := by
  rcases h.here with ⟨rest, hrest⟩
  have hdrop : l.drop (i + pattern.length) = rest := by
    rw [← List.drop_drop, ← hrest, List.drop_left]
  rw [hdrop, List.append_assoc, hrest, List.take_append_drop]

/-- A pattern that is not empty stands inside the list. -/
theorem FirstAt.add_length_le (h : FirstAt pattern l i) (hne : pattern ≠ []) :
    i + pattern.length ≤ l.length := by
  have hle := h.here.length_le
  have hpos := List.length_pos_iff.mpr hne
  rw [List.length_drop] at hle
  omega

theorem firstAt_zero_iff : FirstAt pattern l 0 ↔ pattern <+: l := by
  constructor
  · exact fun h => h.here
  · intro h
    exact ⟨h, fun j hj => absurd hj (Nat.not_lt_zero j)⟩

theorem firstAt_succ_iff :
    FirstAt pattern (c :: l) (i + 1) ↔ ¬ pattern <+: c :: l ∧ FirstAt pattern l i := by
  constructor
  · intro h
    refine ⟨h.before 0 (Nat.succ_pos i), h.here, ?_⟩
    intro j hj
    exact h.before (j + 1) (Nat.succ_lt_succ hj)
  · intro h
    refine ⟨h.2.here, ?_⟩
    intro j hj
    cases j with
    | zero => exact h.1
    | succ j => exact h.2.before j (Nat.lt_of_succ_lt_succ hj)

/-- The first place of a single element. -/
theorem firstAt_singleton (hc : c ∉ a) (b : List α) : FirstAt [c] (a ++ c :: b) a.length := by
  induction a with
  | nil => exact firstAt_zero_iff.mpr (by simp)
  | cons x a ih =>
      rw [List.mem_cons, not_or] at hc
      rw [List.cons_append, List.length_cons, firstAt_succ_iff]
      refine ⟨?_, ih hc.2⟩
      intro hprefix
      exact hc.1 (List.cons_prefix_cons.mp hprefix).1

theorem FirstAt.singleton_split (h : FirstAt [c] l i) :
    l = l.take i ++ c :: l.drop (i + 1) ∧ c ∉ l.take i := by
  refine ⟨by simpa using h.split, ?_⟩
  intro hmem
  rcases List.getElem_of_mem hmem with ⟨j, hj, hget⟩
  rw [List.length_take] at hj
  apply h.before j (by omega)
  rw [List.drop_eq_getElem_cons (by omega)]
  rw [List.getElem_take] at hget
  rw [hget]
  simp

/-! ## The last place of an element -/

section

variable [DecidableEq α]

/-- The parts before and after the last `c`; `none` where there is none. -/
def splitLast (c : α) : List α → Option (List α × List α)
  | [] => none
  | x :: xs =>
      match splitLast c xs with
      | some (a, b) => some (x :: a, b)
      | none => if x = c then some ([], xs) else none

theorem splitLast_eq_none_iff : splitLast c l = none ↔ c ∉ l := by
  induction l with
  | nil => simp [splitLast]
  | cons x xs ih =>
      unfold splitLast
      cases h : splitLast c xs with
      | none =>
          have hxs := ih.mp h
          by_cases hx : x = c
          · simp [hx]
          · simp [hx, Ne.symm hx, hxs]
      | some parts =>
          have hxs : c ∈ xs := by
            by_contra hmem
            rw [ih.mpr hmem] at h
            cases h
          simp [hxs]

/-- What was joined with an element that the second part does not have comes apart. -/
theorem splitLast_append (a : List α) (hb : c ∉ b) : splitLast c (a ++ c :: b) = some (a, b) := by
  induction a with
  | nil =>
      have hnone := splitLast_eq_none_iff.mpr hb
      simp [splitLast, hnone]
  | cons x a ih => simp [splitLast, ih]

end

end Cut
