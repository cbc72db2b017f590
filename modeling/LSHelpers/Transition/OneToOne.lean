import Mathlib.Logic.Function.Basic

/-!
# Resources with one owner each

`f o` is the resource that the owner `o` holds, if it holds one, and `live` says which
resources exist. The correspondence is one-to-one when what exists is what is held and
no two owners hold the same. An owner may give up what it holds, take what nobody has,
or hand what it holds to an owner without any.
-/

namespace Transition

variable {ι ρ : Type*} [DecidableEq ι]

structure OneToOne (f : ι → Option ρ) (live : ρ → Prop) : Prop where
  held : ∀ r, live r ↔ ∃ o, f o = some r
  unique : ∀ o o' r, f o = some r → f o' = some r → o = o'

namespace OneToOne

variable {f : ι → Option ρ} {live live' : ρ → Prop}

omit [DecidableEq ι] in
theorem existsUnique (h : OneToOne f live) {r : ρ} (hr : live r) : ∃! o, f o = some r := by
  rcases (h.held r).mp hr with ⟨o, ho⟩
  exact ⟨o, ho, fun o' ho' => h.unique o' o r ho' ho⟩

/-- The owner `o` gives up what it holds for `a`, which nobody else has. -/
theorem replace (h : OneToOne f live) (o : ι) (a : Option ρ)
    (ha : ∀ r, a = some r → live r → f o = some r)
    (hlive : ∀ r, live' r ↔ live r ∧ f o ≠ some r ∨ a = some r) :
    OneToOne (Function.update f o a) live' := by
  have hold : ∀ o' r, o' ≠ o → f o' = some r → f o ≠ some r := by
    intro o' r hne ho' ho
    exact hne (h.unique o' o r ho' ho)
  constructor
  · intro r
    rw [hlive]
    constructor
    · intro hr
      cases hr with
      | inl hkept =>
          rcases (h.held r).mp hkept.1 with ⟨o', ho'⟩
          have hne : o' ≠ o := fun heq => hkept.2 (heq ▸ ho')
          exact ⟨o', by rw [Function.update_of_ne hne, ho']⟩
      | inr hnew => exact ⟨o, by rw [Function.update_self, hnew]⟩
    · intro hr
      rcases hr with ⟨o', ho'⟩
      by_cases hne : o' = o
      · subst hne
        rw [Function.update_self] at ho'
        exact .inr ho'
      · rw [Function.update_of_ne hne] at ho'
        exact .inl ⟨(h.held r).mpr ⟨o', ho'⟩, hold o' r hne ho'⟩
  · have hother : ∀ o' r, o' ≠ o → f o' = some r → a ≠ some r := by
      intro o' r hne ho' hnew
      exact hold o' r hne ho' (ha r hnew ((h.held r).mpr ⟨o', ho'⟩))
    intro o₁ o₂ r h₁ h₂
    by_cases hne₁ : o₁ = o
    · by_cases hne₂ : o₂ = o
      · rw [hne₁, hne₂]
      · subst hne₁
        rw [Function.update_self] at h₁
        rw [Function.update_of_ne hne₂] at h₂
        exact absurd h₁ (hother o₂ r hne₂ h₂)
    · rw [Function.update_of_ne hne₁] at h₁
      by_cases hne₂ : o₂ = o
      · subst hne₂
        rw [Function.update_self] at h₂
        exact absurd h₂ (hother o₁ r hne₁ h₁)
      · rw [Function.update_of_ne hne₂] at h₂
        exact h.unique o₁ o₂ r h₁ h₂

/-- The owner `source` hands what it holds to `target`, which holds nothing. -/
theorem transfer (h : OneToOne f live) {source target : ι} (hne : target ≠ source)
    (htarget : f target = none) :
    OneToOne (Function.update (Function.update f source none) target (f source)) live := by
  have hgiven : OneToOne (Function.update f source none)
      fun r => live r ∧ f source ≠ some r := by
    apply h.replace source none
    · intro r hr
      cases hr
    · simp
  have hempty : Function.update f source none target = none := by
    rw [Function.update_of_ne hne, htarget]
  apply hgiven.replace target (f source)
  · intro r hr hlive
    exact absurd hr hlive.2
  · intro r
    rw [hempty]
    constructor
    · intro hr
      by_cases hs : f source = some r
      · exact .inr hs
      · exact .inl ⟨⟨hr, hs⟩, by simp⟩
    · intro hr
      cases hr with
      | inl hkept => exact hkept.1.1
      | inr hs => exact (h.held r).mpr ⟨source, hs⟩

end OneToOne

end Transition
