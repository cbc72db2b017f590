import LSHelpers.Subscription.Delivery

/-!
# Deduplication

`post` compares a payload with the last one it remembered, and it remembers only what
it queues while deduplication is on. The payload queued last is another notion, and
the comparison is with that one only as long as the two agree.
-/

namespace LSHelpers

/-- The post gets as far as the duplicate check. -/
def SubscriptionPoint.reachesCheck (p : SubscriptionPoint) (hasContext : Bool) : Bool :=
  p.mServiceHandle.isSome && hasContext

/-- A post fails, is suppressed, or is queued. -/
theorem SubscriptionPoint.post_spec (p : SubscriptionPoint) (hasContext : Bool) (payload : String) :
    (p.reachesCheck hasContext = false ∧ p.post hasContext payload = (false, none, p)) ∨
    (p.reachesCheck hasContext = true ∧ p.mDeduplicate = true ∧ payload = p.mPreviousPayload ∧
      p.post hasContext payload = (true, none, p)) ∨
    (p.reachesCheck hasContext = true ∧ (p.mDeduplicate = true → payload ≠ p.mPreviousPayload) ∧
      p.post hasContext payload =
        (true, some ⟨payload, p.mSubscriptions.map SubscriptionItem.message⟩,
          { p with mPreviousPayload := if p.mDeduplicate then payload else p.mPreviousPayload })) := by
  rcases p with ⟨handle, items, deduplicate, previous⟩
  unfold post attach reachesCheck
  cases handle <;> cases hasContext <;> cases deduplicate <;> by_cases h : payload = previous <;>
    simp [h]

namespace Publisher

open Transition

def deduplicates (s : Publisher) : Bool := (s.point.map SubscriptionPoint.mDeduplicate).getD false

/-- The payload queued last in a run. -/
def lastQueued (s : Publisher) (events : List Event) : Option String :=
  ((trace step s events).filterMap fun x => x.1.queued x.2).getLast?.map PostData.payload

/-- The payload queued last with deduplication on; before the first such, the empty one. -/
def lastRemembered (s : Publisher) (events : List Event) : String :=
  (((trace step s events).filterMap fun x =>
    if x.1.deduplicates then x.1.queued x.2 else none).getLast?.map PostData.payload).getD ""

theorem lastQueued_concat {s t u : Publisher} {events : List Event} {e : Event}
    (h : run step s events = some t) (hstep : step t e = some u) :
    lastQueued s (events ++ [e]) =
      ((t.queued e).map PostData.payload).or (lastQueued s events) := by
  rw [lastQueued, trace_concat h hstep, List.filterMap_append, List.getLast?_append]
  cases hpost : t.queued e <;> simp [hpost, lastQueued]

theorem lastRemembered_concat {s t u : Publisher} {events : List Event} {e : Event}
    (h : run step s events = some t) (hstep : step t e = some u) :
    lastRemembered s (events ++ [e]) =
      if t.deduplicates then
        ((t.queued e).map PostData.payload).getD (lastRemembered s events)
      else lastRemembered s events := by
  rw [lastRemembered, trace_concat h hstep, List.filterMap_append, List.getLast?_append]
  cases hdedup : t.deduplicates <;> cases hpost : t.queued e <;>
    simp [hdedup, hpost, lastRemembered]

/-- What a step leaves in `mPreviousPayload`. -/
theorem step_mPreviousPayload {s t : Publisher} {e : Event} {q : SubscriptionPoint}
    (hstep : step s e = some t) (hq : t.point = some q) :
    ∃ p, s.point = some p ∧ q.mPreviousPayload =
      if s.deduplicates then
        ((s.queued e).map PostData.payload).getD p.mPreviousPayload
      else p.mPreviousPayload := by
  rcases step_cases hstep with ⟨_, _, _, rfl, _, rfl⟩ | ⟨_, _, p, hp, rfl⟩
  · exact ⟨q, hq, by simp [queued]⟩
  · refine ⟨p, hp, ?_⟩
    cases e with
    | post payload hasContext =>
        have hq' : q = (p.post hasContext payload).2.2 := (Option.some.inj hq).symm
        rcases p.post_spec hasContext payload with
          ⟨_, hpost⟩ | ⟨_, _, _, hpost⟩ | ⟨_, _, hpost⟩ <;>
          simp [hq', queued, hp, hpost, deduplicates]
    | createItem message registered =>
        simp only [effect, createItem] at hq
        cases registered <;> cases hhandle : p.mServiceHandle <;>
          simp [hhandle, setServiceHandle, hp] at hq <;> simp [← hq, queued]
    | insertItem address =>
        simp only [effect, insertItem] at hq
        split at hq <;> simp [hp] at hq <;> simp [← hq, queued]
    | subscriberCancel sh uniqueToken =>
        simp only [effect, subscriberCancelCB, eraseIf] at hq
        split at hq <;> simp [hp] at hq <;> simp [← hq, queued]
    | subscriberStatus address isUp =>
        simp only [effect, subscriberStatusCB, eraseIf] at hq
        split_ifs at hq
        · simp_all [queued]
        · split at hq <;> simp [hp] at hq <;> simp [← hq, queued]
    | setServiceHandle handle | setDeduplicate deduplicate =>
        obtain rfl := Option.some.inj hq
        simp [queued]
    | dispatch fails =>
        obtain rfl := Option.some.inj (hp.symm.trans hq)
        simp [queued]
    | destroy => cases hq

/-- The remembered payload is the one queued last with deduplication on. -/
theorem mPreviousPayload_of_run {service : Option LSHandle} {events : List Event} {s : Publisher}
    {p : SubscriptionPoint} (h : run step (init service) events = some s) (hp : s.point = some p) :
    p.mPreviousPayload = lastRemembered (init service) events := by
  refine run_history (P := fun events s => ∀ p, s.point = some p →
    p.mPreviousPayload = lastRemembered (init service) events) ?_ ?_ h p hp
  · intro p hp
    obtain rfl := Option.some.inj hp
    rfl
  · intro events e m n hrun hm hn q hq
    rcases step_mPreviousPayload hn hq with ⟨p, hp, hprevious⟩
    rw [hprevious, lastRemembered_concat hrun hn, hm p hp]

/-! ## The comparison with the payload queued last -/

/-- What is asked of a post made after a run. -/
structure DeduplicatedPost (service : Option LSHandle) (events : List Event) (s : Publisher)
    (p : SubscriptionPoint) (payload : String) (hasContext : Bool) : Prop where
  suppressed : p.reachesCheck hasContext = true →
    ((p.post hasContext payload).1 = true ∧ (p.post hasContext payload).2.1 = none ↔
      p.mDeduplicate = true ∧ lastQueued (init service) events = some payload)
  failed : (p.post hasContext payload).1 = false → step s (.post payload hasContext) = some s
  current : (p.post hasContext payload).1 = true →
    lastQueued (init service) (events ++ [.post payload hasContext]) = some payload

/-- The remembered payload is as good as the one queued last for a given payload. -/
def RemembersFor (last : Option String) (remembered payload : String) : Prop :=
  last = some remembered ∨ (payload ≠ remembered ∧ last ≠ some payload)

theorem remembersFor_iff {last : Option String} {remembered payload : String} :
    RemembersFor last remembered payload ↔ (payload = remembered ↔ last = some payload) := by
  unfold RemembersFor
  constructor
  · intro h
    rcases h with rfl | ⟨hne, hlast⟩
    · simp [eq_comm]
    · simp [hne, hlast]
  · intro h
    by_cases heq : payload = remembered
    · exact .inl (heq ▸ h.mp heq)
    · exact .inr ⟨heq, mt h.mpr heq⟩

theorem deduplicatedPost_iff {service : Option LSHandle} {events : List Event} {s : Publisher}
    {p : SubscriptionPoint} (h : run step (init service) events = some s) (hp : s.point = some p)
    (payload : String) (hasContext : Bool) :
    DeduplicatedPost service events s p payload hasContext ↔
      (p.reachesCheck hasContext = true → p.mDeduplicate = true →
        RemembersFor (lastQueued (init service) events) (lastRemembered (init service) events)
          payload) := by
  have hprevious := mPreviousPayload_of_run h hp
  have hstep : step s (.post payload hasContext) = some (s.post p payload hasContext) := by
    simp [step, enabled, hp, effect]
  have hlast := lastQueued_concat h hstep
  rw [remembersFor_iff, ← hprevious]
  rcases p.post_spec hasContext payload with
    ⟨hreaches, hpost⟩ | ⟨hreaches, hdedup, hpayload, hpost⟩ | ⟨hreaches, hnew, hpost⟩
  · have hsame : s.post p payload hasContext = s := by
      rcases s with ⟨_, _, _, _, _, _, _⟩
      cases hp
      simp [post, hpost]
    rw [hsame] at hstep
    simp only [hreaches, Bool.false_eq_true, false_implies, iff_true]
    exact ⟨by simp [hreaches], fun _ => hstep, by simp [hpost]⟩
  · have hnone : s.queued (.post payload hasContext) = none := by
      simp [queued, hp, hpost]
    rw [hnone] at hlast
    constructor
    · intro hall _ _
      have hsuppressed := hall.suppressed hreaches
      rw [hpost] at hsuppressed
      exact iff_of_true hpayload (hsuppressed.mp ⟨rfl, rfl⟩).2
    · intro hsame
      have hcurrent := (hsame hreaches hdedup).mp hpayload
      exact ⟨fun _ => by simp [hpost, hdedup, hcurrent], by simp [hpost],
        fun _ => hlast.trans hcurrent⟩
  · have hsome : s.queued (.post payload hasContext) =
        some ⟨payload, p.mSubscriptions.map SubscriptionItem.message⟩ := by
      simp [queued, hp, hpost]
    rw [hsome] at hlast
    constructor
    · intro hall _ hdedup
      simpa [hpost, hdedup, hnew hdedup] using hall.suppressed hreaches
    · intro hsame
      refine ⟨fun _ => ?_, by simp [hpost], fun _ => hlast⟩
      simpa [hpost] using fun hdedup => mt (hsame hreaches hdedup).mpr (hnew hdedup)

/-- In every run the posts are suppressed as they should be, if and only if at each of
them that is checked the payload remembered is as good as the payload queued last. -/
theorem deduplicated_iff_remembers (service : Option LSHandle) (events : List Event) :
    (∀ pre payload hasContext post s p, events = pre ++ .post payload hasContext :: post →
      run step (init service) pre = some s → s.point = some p →
      DeduplicatedPost service pre s p payload hasContext) ↔
    ∀ pre payload hasContext post s p, events = pre ++ .post payload hasContext :: post →
      run step (init service) pre = some s → s.point = some p →
      p.reachesCheck hasContext = true → p.mDeduplicate = true →
      RemembersFor (lastQueued (init service) pre) (lastRemembered (init service) pre) payload := by
  constructor
  · intro hall pre payload hasContext post s p hsplit hrun hp
    exact (deduplicatedPost_iff hrun hp payload hasContext).mp
      (hall pre payload hasContext post s p hsplit hrun hp)
  · intro hall pre payload hasContext post s p hsplit hrun hp
    exact (deduplicatedPost_iff hrun hp payload hasContext).mpr
      (hall pre payload hasContext post s p hsplit hrun hp)

/-- Deduplication is off for one post in between, so the third post is taken for a
repetition of the first and the subscribers are left with the second. -/
theorem suppressed_after_mode_switch :
    let events : List Event := [.setDeduplicate true, .post "on" true, .setDeduplicate false,
      .post "off" true, .setDeduplicate true]
    ∃ s p, run step (init (some 1)) events = some s ∧ s.point = some p ∧
      lastQueued (init (some 1)) events = some "off" ∧ p.post true "on" = (true, none, p) ∧
      ¬DeduplicatedPost (some 1) events s p "on" true := by
  refine ⟨_, _, rfl, rfl, rfl, rfl, fun h => ?_⟩
  have hcurrent : some "off" = some "on" := h.current rfl
  simp at hcurrent

end Publisher

end LSHelpers
