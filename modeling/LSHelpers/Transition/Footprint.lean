import Mathlib.Data.Set.Lattice
import Mathlib.Logic.Function.DependsOn
import Mathlib.Order.CompletePartialOrder

/-!
# Operations with separate footprints

A memory gives every variable a value of the variable's own type. An operation is
local to a set of variables when it changes no other variable and reads no other
variable. A list of operations whose footprints are disjoint leaves in each
footprint what its operation leaves there alone, so the order does not matter.
-/

namespace Transition

variable {ι κ : Type*} {α : ι → Type*}

/-- `f` changes only the variables in `s`, and what it leaves there depends only on
what they held. -/
structure Local (s : Set ι) (f : (∀ i, α i) → ∀ i, α i) : Prop where
  frame : ∀ m i, i ∉ s → f m i = m i
  reads : ∀ i ∈ s, DependsOn (fun m => f m i) s

/-- The operations of a list, one after another. -/
def perform (f : κ → (∀ i, α i) → ∀ i, α i) : List κ → (∀ i, α i) → ∀ i, α i
  | [], m => m
  | k :: ks, m => perform f ks (f k m)

/-- No two operations of the list share a variable. -/
def Separate (s : κ → Set ι) (ks : List κ) : Prop :=
  ks.Pairwise fun k k' => Disjoint (s k) (s k')

variable {s : κ → Set ι} {f : κ → (∀ i, α i) → ∀ i, α i} {ks ks' : List κ} {k : κ} {i : ι}

theorem Separate.perm (h : Separate s ks) (hperm : ks.Perm ks') : Separate s ks' :=
  hperm.pairwise h fun hdisjoint => hdisjoint.symm

section Footprints

variable (hf : ∀ k, Local (s k) (f k))

include hf

theorem perform_frame (m : ∀ i, α i) (h : ∀ k ∈ ks, i ∉ s k) : perform f ks m i = m i := by
  induction ks generalizing m with
  | nil => rfl
  | cons k ks ih =>
      rw [List.forall_mem_cons] at h
      exact (ih (f k m) h.2).trans ((hf k).frame m i h.1)

/-- An earlier operation leaves the footprint of a later one as it was. -/
theorem Local.agree {k' : κ} (hdisjoint : Disjoint (s k) (s k')) (m : ∀ i, α i) :
    ∀ i ∈ s k', f k m i = m i := by
  intro i hi
  exact (hf k).frame m i (Set.disjoint_right.mp hdisjoint hi)

theorem perform_eq (m : ∀ i, α i) (hsep : Separate s ks) (hk : k ∈ ks) (hi : i ∈ s k) :
    perform f ks m i = f k m i := by
  induction ks generalizing m with
  | nil => exact absurd hk List.not_mem_nil
  | cons k' ks ih =>
      have hcons := List.pairwise_cons.mp hsep
      cases List.mem_cons.mp hk with
      | inl heq =>
          subst heq
          show perform f ks (f k m) i = f k m i
          apply perform_frame hf
          intro l hl
          exact Set.disjoint_left.mp (hcons.1 l hl) hi
      | inr hmem =>
          have hrest := ih (f k' m) hcons.2 hmem
          have hsame := (hf k).reads i hi (Local.agree hf (hcons.1 k hmem) m)
          exact hrest.trans hsame

theorem perform_perm (m : ∀ i, α i) (hsep : Separate s ks) (hperm : ks.Perm ks') :
    perform f ks m = perform f ks' m := by
  funext i
  by_cases h : ∃ k ∈ ks, i ∈ s k
  · rcases h with ⟨k, hk, hi⟩
    rw [perform_eq hf m hsep hk hi, perform_eq hf m (hsep.perm hperm) (hperm.mem_iff.mp hk) hi]
  · have hout : ∀ k ∈ ks, i ∉ s k := by
      intro k hk hi
      exact h ⟨k, hk, hi⟩
    have hout' : ∀ k ∈ ks', i ∉ s k := by
      intro k hk
      exact hout k (hperm.mem_iff.mpr hk)
    rw [perform_frame hf m hout, perform_frame hf m hout']

end Footprints

end Transition
