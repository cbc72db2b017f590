import LSHelpers.Transition.Run

/-! # Parts and views of a system

Every step of the system is a step of the part, by an event that can be read off the
system's own, or leaves the part as it is. What a run of the system does to the part is
then a run of the part. A view is a refinement whose events depend on the states as well;
a condition on the steps of the system is one on the steps of the view.
-/

namespace Transition

variable {σ τ α β : Type*} {step : σ → α → Option σ} {step' : τ → β → Option τ}
  {own : α → Option β} {inside : σ → τ → Prop}

/-- `inside s x` says that the part is in state `x` while the system is in state `s`. -/
def IsPart (step : σ → α → Option σ) (step' : τ → β → Option τ) (own : α → Option β)
    (inside : σ → τ → Prop) : Prop :=
  ∀ s a t x, inside s x → step s a = some t →
    (own a = none ∧ inside t x) ∨ ∃ b y, own a = some b ∧ step' x b = some y ∧ inside t y

theorem IsPart.run (h : IsPart step step' own inside) {s t : σ} {x : τ} {as : List α}
    (hs : inside s x) (hrun : Transition.run step s as = some t) :
    ∃ y, Transition.run step' x (as.filterMap own) = some y ∧ inside t y := by
  induction as generalizing s x with
  | nil =>
      obtain rfl := Option.some.inj hrun
      exact ⟨x, rfl, hs⟩
  | cons a as ih =>
      rcases run_cons_iff.mp hrun with ⟨m, hm, ht⟩
      rcases h s a m x hs hm with ⟨hown, hkept⟩ | ⟨b, z, hown, hz, hmoved⟩
      · rw [List.filterMap_cons_none hown]
        exact ih hkept ht
      · rcases ih hmoved ht with ⟨y, hy, hinside⟩
        rw [List.filterMap_cons_some hown]
        exact ⟨y, run_cons_iff.mpr ⟨z, hz, hy⟩, hinside⟩

/-- `run_refine` for the runs whose own steps meet a condition. -/
theorem run_refine_of_meets {D : σ → α → Prop} {C : τ → β → Prop} {view : σ → τ}
    (match_step : ∀ s a t, D s a → step s a = some t →
      ∃ bs, run step' (view s) bs = some (view t) ∧ Meets step' C (view s) bs)
    {s t : σ} {as : List α} (hmeets : Meets step D s as) (h : run step s as = some t) :
    ∃ bs, run step' (view s) bs = some (view t) ∧ Meets step' C (view s) bs := by
  induction as generalizing s with
  | nil =>
      obtain rfl : s = t := Option.some.inj h
      exact ⟨[], rfl, meets_nil⟩
  | cons a as ih =>
      rcases run_cons_iff.mp h with ⟨m, hm, ht⟩
      rcases meets_cons_iff.mp hmeets with ⟨ha, hrest⟩
      rcases match_step s a m ha hm with ⟨bs, hbs, hfirst⟩
      rcases ih (hrest m hm) ht with ⟨cs, hcs, hlater⟩
      exact ⟨bs ++ cs, run_append_iff.mpr ⟨view m, hbs, hcs⟩, hfirst.append hbs hlater⟩

end Transition
