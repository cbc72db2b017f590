import Mathlib.Data.List.Perm.Basic

/-!
# Lists of settings of which the last one counts

`write` says which items of a list set a value, and `lastWrite` is the value after
the whole list. A list that sets the value at most once may be reordered.
-/

namespace Transition

variable {σ α β : Type*}

/-- The value after a list of items, each of which sets it or leaves it. -/
def lastWrite (write : α → Option β) : β → List α → β
  | b, [] => b
  | b, a :: as => lastWrite write ((write a).getD b) as

variable {write : α → Option β} {as bs : List α}

@[simp] theorem lastWrite_nil (write : α → Option β) (b : β) : lastWrite write b [] = b := rfl

@[simp] theorem lastWrite_cons (write : α → Option β) (b : β) (a : α) (as : List α) :
    lastWrite write b (a :: as) = lastWrite write ((write a).getD b) as := rfl

theorem lastWrite_append (write : α → Option β) (b : β) (as bs : List α) :
    lastWrite write b (as ++ bs) = lastWrite write (lastWrite write b as) bs := by
  induction as generalizing b with
  | nil => rfl
  | cons a as ih => exact ih ((write a).getD b)

/-- Only the values written matter. -/
theorem lastWrite_eq_filterMap (write : α → Option β) (b : β) (as : List α) :
    lastWrite write b as = lastWrite some b (as.filterMap write) := by
  induction as generalizing b with
  | nil => rfl
  | cons a as ih =>
      rw [lastWrite_cons, ih, List.filterMap_cons]
      cases write a with
      | none => rfl
      | some _ => rfl

theorem lastWrite_eq_getLast? (write : α → Option β) (b : β) (as : List α) :
    lastWrite write b as = (as.filterMap write).getLast?.getD b := by
  rw [lastWrite_eq_filterMap]
  induction as.filterMap write generalizing b with
  | nil => rfl
  | cons x xs ih => rw [lastWrite_cons, ih, List.getLast?_cons, Option.getD_some, Option.getD_some]

theorem lastWrite_of_filterMap_singleton {x : β} (h : as.filterMap write = [x]) (b : β) :
    lastWrite write b as = x := by
  rw [lastWrite_eq_getLast?, h]
  rfl

theorem eq_singleton_of_mem {xs : List β} {x : β} (honce : xs.length ≤ 1) (hx : x ∈ xs) :
    xs = [x] := by
  cases xs with
  | nil => simp at hx
  | cons y ys =>
      have hys : ys = [] := List.length_eq_zero_iff.mp (by simpa using honce)
      rw [hys, List.mem_singleton] at hx
      rw [hys, hx]

/-- A value written at most once is the one that is written. -/
theorem lastWrite_of_mem {a : α} {b : β} (honce : (as.filterMap write).length ≤ 1) (ha : a ∈ as)
    (hb : write a = some b) (b' : β) : lastWrite write b' as = b := by
  have hmem : b ∈ as.filterMap write := List.mem_filterMap.mpr ⟨a, ha, hb⟩
  exact lastWrite_of_filterMap_singleton (eq_singleton_of_mem honce hmem) b'

/-- A value written at most once does not depend on the order of the list. -/
theorem lastWrite_perm (hperm : as.Perm bs) (honce : (as.filterMap write).length ≤ 1) (b : β) :
    lastWrite write b as = lastWrite write b bs := by
  have hwrites : (as.filterMap write).Perm (bs.filterMap write) := hperm.filterMap write
  rw [lastWrite_eq_filterMap write b as, lastWrite_eq_filterMap write b bs]
  cases h : as.filterMap write with
  | nil =>
      rw [h] at hwrites
      rw [hwrites.nil_eq]
  | cons x xs =>
      have hsingle := eq_singleton_of_mem honce (h ▸ List.mem_cons_self)
      rw [hsingle] at hwrites
      rw [← h, hsingle, List.singleton_perm.mp hwrites]

theorem lastWrite_mem (b : β) (xs : List β) :
    lastWrite some b xs = b ∨ lastWrite some b xs ∈ xs := by
  induction xs generalizing b with
  | nil => exact .inl rfl
  | cons x xs ih =>
      right
      rcases ih x with hsame | hmem
      · rw [lastWrite_cons, Option.getD_some, hsame]
        exact List.mem_cons_self
      · exact List.mem_cons_of_mem _ hmem

/-- A flag that is down at the start is up only if the list sets it. -/
theorem lastWrite_eq_true {write : α → Option Bool} (h : lastWrite write false as = true) :
    ∃ a ∈ as, write a = some true := by
  rw [lastWrite_eq_filterMap] at h
  rcases lastWrite_mem false (as.filterMap write) with hfalse | hmem
  · rw [h] at hfalse
    cases hfalse
  · rw [h, List.mem_filterMap] at hmem
    exact hmem

end Transition
