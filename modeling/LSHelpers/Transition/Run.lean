import Mathlib.Data.List.Induction

/-! # Runs of a partial step function

A step function `σ → α → Option σ` gives the state after one event, or `none`
when the event cannot happen in the state. Nothing here is about a particular
system: a run is the fold of the step function over a list of events, and every
rule below is an induction over such a list, made once.
-/

namespace Transition

variable {σ τ α β : Type*}

/-- The state after a list of events, `none` if one of them cannot happen. -/
def run (step : σ → α → Option σ) : σ → List α → Option σ
  | s, [] => some s
  | s, a :: as => (step s a).bind fun t => run step t as

variable {step : σ → α → Option σ} {s t : σ} {a : α} {as bs : List α}

@[simp] theorem run_nil (step : σ → α → Option σ) (s : σ) : run step s [] = some s := rfl

theorem run_append (step : σ → α → Option σ) (s : σ) (as bs : List α) :
    run step s (as ++ bs) = (run step s as).bind fun m => run step m bs := by
  induction as generalizing s with
  | nil => rfl
  | cons a as ih =>
      simp only [List.cons_append, run]
      cases h : step s a with
      | none => rfl
      | some m => simpa using ih m

theorem run_cons_iff :
    run step s (a :: as) = some t ↔ ∃ m, step s a = some m ∧ run step m as = some t := by
  simp only [run, Option.bind_eq_some_iff]

theorem run_append_iff :
    run step s (as ++ bs) = some t ↔
      ∃ m, run step s as = some m ∧ run step m bs = some t := by
  rw [run_append, Option.bind_eq_some_iff]

theorem run_concat_iff :
    run step s (as ++ [a]) = some t ↔ ∃ m, run step s as = some m ∧ step m a = some t := by
  simp only [run_append_iff, run_cons_iff, run_nil, Option.some.injEq, exists_eq_right]

/-- A run through a given event, cut before and after that event. -/
theorem run_split_iff :
    run step s (as ++ a :: bs) = some t ↔
      ∃ m n, run step s as = some m ∧ step m a = some n ∧ run step n bs = some t := by
  simp only [run_append_iff, run_cons_iff]
  constructor
  · intro h
    rcases h with ⟨m, hm, n, hn, ht⟩
    exact ⟨m, n, hm, hn, ht⟩
  · intro h
    rcases h with ⟨m, n, hm, hn, ht⟩
    exact ⟨m, hm, n, hn, ht⟩

/-- A run through a given event, from the state before that event. -/
theorem run_next (h : run step s (as ++ a :: bs) = some t) {m : σ} (hm : run step s as = some m) :
    ∃ n, step m a = some n ∧ run step n bs = some t := by
  rw [run_append, hm, Option.bind_some] at h
  exact run_cons_iff.mp h

/-- The steps a run takes: each event with the state it happens in. -/
def trace (step : σ → α → Option σ) : σ → List α → List (σ × α)
  | _, [] => []
  | s, a :: as => (step s a).elim [] fun t => (s, a) :: trace step t as

@[simp] theorem trace_nil (step : σ → α → Option σ) (s : σ) : trace step s [] = [] := rfl

theorem trace_append (h : run step s as = some t) :
    trace step s (as ++ bs) = trace step s as ++ trace step t bs := by
  induction as generalizing s with
  | nil =>
      obtain rfl : s = t := Option.some.inj h
      rfl
  | cons a as ih =>
      rcases run_cons_iff.mp h with ⟨m, hm, ht⟩
      simp only [List.cons_append, trace, hm, Option.elim_some, ih ht]

theorem trace_concat (h : run step s as = some t) {u : σ} (hstep : step t a = some u) :
    trace step s (as ++ [a]) = trace step s as ++ [(t, a)] := by
  rw [trace_append h]
  simp [trace, hstep]

/-! ## Conditions on the steps of a run -/

/-- Every step the run takes meets the condition in the state it is taken from. -/
def Meets (step : σ → α → Option σ) (C : σ → α → Prop) (s : σ) (as : List α) : Prop :=
  ∀ pre a post m, as = pre ++ a :: post → run step s pre = some m → C m a

theorem Meets.prefix {C : σ → α → Prop} (h : Meets step C s (as ++ bs)) : Meets step C s as := by
  intro pre a post m hsplit hrun
  exact h pre a (post ++ bs) m (by simp [hsplit]) hrun

theorem Meets.last {C : σ → α → Prop} (h : Meets step C s (as ++ [a]))
    (hrun : run step s as = some t) : C t a := h as a [] t rfl hrun

theorem meets_nil {C : σ → α → Prop} : Meets step C s [] := by
  intro pre a post m hsplit
  simp at hsplit

theorem Meets.of_forall {C : σ → α → Prop} (h : ∀ a ∈ as, ∀ m, C m a) : Meets step C s as := by
  intro pre a post m hsplit _
  exact h a (by simp [hsplit]) m

theorem meets_cons_iff {C : σ → α → Prop} :
    Meets step C s (a :: as) ↔ C s a ∧ ∀ t, step s a = some t → Meets step C t as := by
  constructor
  · intro h
    refine ⟨h [] a as s rfl rfl, ?_⟩
    intro t ht pre b post m hsplit hrun
    exact h (a :: pre) b post m (by simp [hsplit]) (run_cons_iff.mpr ⟨t, ht, hrun⟩)
  · intro h pre b post m hsplit hrun
    cases pre with
    | nil =>
        rcases List.cons.inj hsplit with ⟨rfl, rfl⟩
        obtain rfl := Option.some.inj hrun
        exact h.1
    | cons c pre =>
        rcases List.cons.inj hsplit with ⟨rfl, hrest⟩
        rcases run_cons_iff.mp hrun with ⟨t, ht, hpre⟩
        exact h.2 t ht pre b post m hrest hpre

theorem Meets.append {C : σ → α → Prop} (h : Meets step C s as) (hrun : run step s as = some t)
    (h' : Meets step C t bs) : Meets step C s (as ++ bs) := by
  induction as generalizing s with
  | nil =>
      obtain rfl := Option.some.inj hrun
      exact h'
  | cons a as ih =>
      rcases run_cons_iff.mp hrun with ⟨m, hm, ht⟩
      have hcons := meets_cons_iff.mp h
      rw [List.cons_append, meets_cons_iff]
      refine ⟨hcons.1, ?_⟩
      intro n hn
      obtain rfl := Option.some.inj (hm.symm.trans hn)
      exact ih (hcons.2 m hm) ht

instance decidableMeets {C : σ → α → Prop} [∀ s a, Decidable (C s a)] (s : σ) :
    (as : List α) → Decidable (Meets step C s as)
  | [] => isTrue meets_nil
  | a :: as =>
      match h : step s a with
      | none => decidable_of_iff (C s a) (by simp [meets_cons_iff, h])
      | some t =>
          have := decidableMeets t as (C := C)
          decidable_of_iff (C s a ∧ Meets step C t as) (by simp [meets_cons_iff, h])

/-! ## Induction over a run -/

/-- What holds at the start, with no event behind it, and is carried over every
step that meets the condition, holds with the whole list of events behind it. -/
theorem run_induction {C : σ → α → Prop} {P : List α → σ → Prop} (start : P [] s)
    (carry : ∀ as a m n, run step s as = some m → P as m → C m a → step m a = some n →
      P (as ++ [a]) n)
    (meets : Meets step C s as) (h : run step s as = some t) : P as t := by
  induction as using List.reverseRecOn generalizing t with
  | nil =>
      obtain rfl : s = t := Option.some.inj h
      exact start
  | append_singleton as a ih =>
      rcases run_concat_iff.mp h with ⟨m, hm, hn⟩
      exact carry as a m t hm (ih meets.prefix hm) (meets.last hm) hn

/-- `run_induction` for a system whose every step is allowed. -/
theorem run_history {P : List α → σ → Prop} (start : P [] s)
    (carry : ∀ as a m n, run step s as = some m → P as m → step m a = some n → P (as ++ [a]) n)
    (h : run step s as = some t) : P as t :=
  run_induction (C := fun _ _ => True) start (fun as a m n hm hp _ hn => carry as a m n hm hp hn)
    (fun _ _ _ _ _ _ => trivial) h

/-- An invariant of the steps is an invariant of the runs. -/
theorem run_invariant {I : σ → Prop} (carry : ∀ m a n, I m → step m a = some n → I n)
    (h : run step s as = some t) (start : I s) : I t :=
  run_history (P := fun _ m => I m) start (fun _ a m n _ hm hn => carry m a n hm hn) h

/-! ## Refinement -/

/-- When, under an invariant, every step of one system is matched through `abs` by a run of
another whose steps meet a condition, so is every run. -/
theorem run_refine {step' : τ → β → Option τ} {C : τ → β → Prop} {abs : σ → τ} {I : σ → Prop}
    (keep : ∀ m a n, I m → step m a = some n → I n)
    (match_step : ∀ m a n, I m → step m a = some n →
      ∃ bs, run step' (abs m) bs = some (abs n) ∧ Meets step' C (abs m) bs)
    (start : I s) (h : run step s as = some t) :
    ∃ bs, run step' (abs s) bs = some (abs t) ∧ Meets step' C (abs s) bs := by
  induction as generalizing s with
  | nil =>
      obtain rfl : s = t := Option.some.inj h
      exact ⟨[], rfl, meets_nil⟩
  | cons a as ih =>
      rcases run_cons_iff.mp h with ⟨m, hm, ht⟩
      rcases match_step s a m start hm with ⟨bs, hbs, hmeets⟩
      rcases ih (keep s a m start hm) ht with ⟨cs, hcs, hmeets'⟩
      exact ⟨bs ++ cs, run_append_iff.mpr ⟨abs m, hbs, hcs⟩, hmeets.append hbs hmeets'⟩

end Transition
