import LSHelpers.Subscription.Registration
import Mathlib.Data.List.Perm.Subperm

/-!
# What a subscription point has registered

The object has its cancel callback on one handle, the service handle of the moment,
and one status watch for each item, in the list or on the way into it. Whatever the
order of events, nothing else is registered, so nothing is left once the object is
destroyed.
-/

namespace LSHelpers

/-- The watch of an item. -/
def SubscriptionItem.watch (item : SubscriptionItem) : Watch := ⟨item.statusHandle, item.address⟩

theorem perm_cons_eraseP {α : Type*} {q : α → Bool} {l : List α} {x : α}
    (h : l.find? q = some x) : l.Perm (x :: l.eraseP q) := by
  induction l with
  | nil => cases h
  | cons y l ih =>
      by_cases hy : q y = true
      · rw [List.find?_cons_of_pos hy] at h
        obtain rfl := Option.some.inj h
        rw [List.eraseP_cons_of_pos hy]
      · rw [List.find?_cons_of_neg hy] at h
        rw [List.eraseP_cons_of_neg hy]
        exact ((ih h).cons y).trans (List.Perm.swap x y _)

theorem diff_eq_nil_of_perm {α : Type*} [DecidableEq α] {l l' : List α} (h : l.Perm l') :
    l.diff l' = [] := by
  have hself : l'.diff l' = [] := by
    clear h
    induction l' with
    | nil => rfl
    | cons x l' ih => rw [List.diff_cons, List.erase_cons_head, ih]
  have hperm := h.diff_right l'
  rw [hself] at hperm
  exact hperm.eq_nil

/-- A post changes neither the handle nor the list. -/
theorem SubscriptionPoint.post_keeps (p : SubscriptionPoint) (hasContext : Bool)
    (payload : String) :
    (p.post hasContext payload).2.2.mServiceHandle = p.mServiceHandle ∧
      (p.post hasContext payload).2.2.mSubscriptions = p.mSubscriptions := by
  unfold SubscriptionPoint.post SubscriptionPoint.attach
  split_ifs <;> exact ⟨rfl, rfl⟩

namespace Publisher

open Transition

/-- The service handle of the moment. -/
def serviceHandle (s : Publisher) : Option LSHandle :=
  s.point.bind SubscriptionPoint.mServiceHandle

structure Attached (s : Publisher) : Prop where
  callbacks : s.cancelCallbacks = s.serviceHandle.toList
  watches : s.watches.Perm ((s.listed ++ s.adding).map SubscriptionItem.watch)
  destroyed : s.point = none → s.adding = []

theorem setServiceHandle_callbacks {s : Publisher} (h : Attached s) {p : SubscriptionPoint}
    (hp : s.point = some p) (handle : Option LSHandle) :
    (s.setServiceHandle p handle).cancelCallbacks = handle.toList := by
  have hold : s.cancelCallbacks = p.mServiceHandle.toList := by
    rw [h.callbacks, serviceHandle, hp]
    rfl
  simp [setServiceHandle, hold, diff_eq_nil_of_perm]

theorem attached_init (service : Option LSHandle) : Attached (init service) where
  callbacks := by simp [init, setServiceHandle, serviceHandle]
  watches := by simp [init, setServiceHandle, listed]
  destroyed h := by simp [init, setServiceHandle] at h

theorem Attached.update {s : Publisher} (h : Attached s) {p : SubscriptionPoint}
    (hp : s.point = some p) (q : SubscriptionPoint) (hhandle : q.mServiceHandle = p.mServiceHandle)
    (hitems : q.mSubscriptions = p.mSubscriptions) (queue : List PostData) :
    Attached { s with point := some q, queue := queue } where
  callbacks := by
    have hcallbacks := h.callbacks
    simpa [serviceHandle, hp, hhandle] using hcallbacks
  watches := by
    have hwatches := h.watches
    simpa [listed, hp, hitems] using hwatches
  destroyed hnone := by cases hnone

theorem Attached.setServiceHandle {s : Publisher} (h : Attached s) {p : SubscriptionPoint}
    (hp : s.point = some p) (handle : Option LSHandle) :
    Attached (s.setServiceHandle p handle) where
  callbacks := setServiceHandle_callbacks h hp handle
  watches := by
    have hwatches := h.watches
    simpa [Publisher.setServiceHandle, listed, hp] using hwatches
  destroyed hnone := by simp [Publisher.setServiceHandle] at hnone

/-- The watch of a new item is registered before the item is in the list. -/
theorem Attached.createItem {s : Publisher} (h : Attached s) {p : SubscriptionPoint}
    (hp : s.point = some p) (message : Message) (registered : Bool) :
    Attached (s.createItem p message registered) := by
  -- the point and the registry once a service handle is set
  obtain ⟨q, s', hs', hq, hcreated⟩ : ∃ q s', Attached s' ∧ s'.point = some q ∧
      s.createItem p message registered =
        if registered then
          { s' with
            adding := s'.adding ++ [⟨s'.nextAddress, message, p.mServiceHandle.getD message.connection⟩]
            nextAddress := s'.nextAddress + 1
            watches := s'.watches ++ [⟨p.mServiceHandle.getD message.connection, s'.nextAddress⟩] }
        else s' := by
    unfold Publisher.createItem
    cases hhandle : p.mServiceHandle with
    | none => exact ⟨_, _, h.setServiceHandle hp (some message.connection), rfl, rfl⟩
    | some handle => exact ⟨p, s, h, hp, rfl⟩
  rw [hcreated]
  cases registered with
  | false => exact hs'
  | true =>
      constructor
      · exact hs'.callbacks
      · have hwatches := hs'.watches.append_right
          [⟨p.mServiceHandle.getD message.connection, s'.nextAddress⟩]
        simpa [listed, SubscriptionItem.watch] using hwatches
      · intro hnone
        exact absurd (hq.symm.trans hnone) (Option.some_ne_none q)

theorem Attached.insertItem {s : Publisher} (h : Attached s) {p : SubscriptionPoint}
    (hp : s.point = some p) (address : Nat) : Attached (s.insertItem p address) := by
  unfold Publisher.insertItem
  cases hfind : s.adding.find? fun item => item.address == address with
  | none => exact h
  | some item =>
      have hmem := List.mem_of_find?_eq_some hfind
      constructor
      · have hcallbacks := h.callbacks
        simpa [serviceHandle, hp] using hcallbacks
      · have hperm : (s.listed ++ s.adding).Perm (s.listed ++ [item] ++ s.adding.erase item) := by
          rw [List.append_assoc]
          exact List.Perm.append_left _ (List.perm_cons_erase hmem)
        have hwatches := h.watches.trans (hperm.map SubscriptionItem.watch)
        simpa [listed, hp] using hwatches
      · intro hnone
        cases hnone

/-- An item that leaves the list takes its watch with it. -/
theorem Attached.eraseIf {s : Publisher} (h : Attached s) {p : SubscriptionPoint}
    (hp : s.point = some p) (which : SubscriptionItem → Bool) : Attached (s.eraseIf p which) := by
  unfold Publisher.eraseIf
  cases hfind : p.mSubscriptions.find? which with
  | none => exact h
  | some item =>
      constructor
      · have hcallbacks := h.callbacks
        simpa [serviceHandle, hp] using hcallbacks
      · have hperm : (s.listed ++ s.adding).Perm
            (item :: (p.mSubscriptions.eraseP which ++ s.adding)) := by
          have hlisted : s.listed = p.mSubscriptions := by simp [listed, hp]
          rw [hlisted]
          exact (perm_cons_eraseP hfind).append_right s.adding
        have hwatches := (h.watches.trans (hperm.map SubscriptionItem.watch)).erase item.watch
        rw [List.map_cons, List.erase_cons_head] at hwatches
        exact hwatches
      · intro hnone
        cases hnone

theorem Attached.destroy {s : Publisher} (h : Attached s) {p : SubscriptionPoint}
    (hp : s.point = some p) (hadding : s.adding = []) : Attached (s.destroy p) where
  callbacks := by
    have hold : s.cancelCallbacks = p.mServiceHandle.toList := by
      rw [h.callbacks, serviceHandle, hp]
      rfl
    simp [Publisher.destroy, serviceHandle, hold, diff_eq_nil_of_perm]
  watches := by
    have hwatches := h.watches
    rw [hadding, List.append_nil] at hwatches
    have hlisted : s.listed = p.mSubscriptions := by simp [listed, hp]
    rw [hlisted] at hwatches
    have hnone : (s.destroy p).watches = [] := diff_eq_nil_of_perm hwatches
    rw [hnone]
    simp [Publisher.destroy, listed, hadding]
  destroyed _ := hadding

theorem Attached.step {s t : Publisher} {e : Event} (h : Attached s)
    (hstep : Publisher.step s e = some t) : Attached t := by
  rcases step_cases hstep with hdispatch | heffect
  · rcases hdispatch with ⟨fails, data, queue, rfl, hqueue, rfl⟩
    exact ⟨h.callbacks, h.watches, h.destroyed⟩
  · rcases heffect with ⟨_, henabled, p, hp, rfl⟩
    cases e with
    | setServiceHandle handle => exact h.setServiceHandle hp handle
    | setDeduplicate deduplicate =>
        exact h.update hp { p with mDeduplicate := deduplicate } rfl rfl s.queue
    | createItem message registered => exact h.createItem hp message registered
    | insertItem address => exact h.insertItem hp address
    | post payload hasContext =>
        have hpost := p.post_keeps hasContext payload
        exact h.update hp _ hpost.1 hpost.2 _
    | subscriberCancel sh uniqueToken => exact h.eraseIf hp _
    | subscriberStatus address isUp =>
        cases isUp with
        | true => exact h
        | false => exact h.eraseIf hp _
    | dispatch fails => exact h
    | destroy => exact h.destroy hp (List.isEmpty_iff.mp henabled)

theorem attached_of_run {service : Option LSHandle} {events : List Event} {s : Publisher}
    (h : run Publisher.step (init service) events = some s) : Attached s :=
  run_invariant (fun _ _ _ hm hstep => hm.step hstep) h (attached_init service)

/-! ## After the destructor -/

/-- Once the object is destroyed no cancel callback and no watch is left on any handle,
and a throwing `addSubscription` has left the items and the watches as they were. -/
theorem released_of_run (service : Option LSHandle) (events : List Event) (s : Publisher)
    (h : run Publisher.step (init service) events = some s) :
    (∀ more t, run Publisher.step s (.destroy :: more) = some t →
      t.cancelCallbacks = [] ∧ t.watches = []) ∧
    ∀ message t, Publisher.step s (.createItem message false) = some t →
      t.listed = s.listed ∧ t.adding = s.adding ∧ t.watches = s.watches := by
  constructor
  · intro more t hmore
    rcases run_cons_iff.mp hmore with ⟨n, hn, ht⟩
    have hgone : n.point = none := by
      rcases step_cases hn with hdispatch | heffect
      · rcases hdispatch with ⟨_, _, _, he, _⟩
        cases he
      · rcases heffect with ⟨_, _, p, _, rfl⟩
        rfl
    have hnone : t.point = none :=
      run_invariant (I := fun s => s.point = none)
        (fun _ _ _ hm hstep => point_none_of_step hm hstep) ht hgone
    have hattached := attached_of_run (run_append_iff.mpr ⟨s, h, hmore⟩)
    have hcallbacks := hattached.callbacks
    have hwatches := hattached.watches
    rw [serviceHandle, hnone] at hcallbacks
    rw [hattached.destroyed hnone, listed, hnone] at hwatches
    exact ⟨hcallbacks, hwatches.eq_nil⟩
  · intro message t hstep
    rcases step_cases hstep with hdispatch | heffect
    · rcases hdispatch with ⟨_, _, _, he, _⟩
      cases he
    · rcases heffect with ⟨_, _, p, hp, rfl⟩
      simp only [effect, createItem, Bool.false_eq_true, if_false]
      split
      · exact ⟨by simp [listed, hp, setServiceHandle], rfl, rfl⟩
      · exact ⟨rfl, rfl, rfl⟩

/-- A client on a connection of its own, while the service handle changes twice. -/
def handleEvents : List Event :=
  [.createItem ⟨"token", "client", 2⟩ true, .insertItem 0, .setServiceHandle none,
    .setServiceHandle (some 3)]

theorem released_of_handleEvents :
    ∃ s, run Publisher.step (init (some 1)) handleEvents = some s ∧
      (∀ more t, run Publisher.step s (.destroy :: more) = some t →
        t.cancelCallbacks = [] ∧ t.watches = []) ∧
      ∀ message t, Publisher.step s (.createItem message false) = some t →
        t.listed = s.listed ∧ t.adding = s.adding ∧ t.watches = s.watches := by
  have h : run Publisher.step (init (some 1)) handleEvents = some _ := rfl
  exact ⟨_, h, released_of_run (some 1) handleEvents _ h⟩

/-! ## Where cancels are heard -/

/-- The cancel callback is registered on the service handle of the moment only. An item
whose message came over this handle is erased by its cancel, unless another item has
its token; a cancel on any other connection is not heard. -/
structure HearsCancels (s : Publisher) (p : SubscriptionPoint) : Prop where
  callbacks : s.cancelCallbacks = p.mServiceHandle.toList
  registered : ∀ item ∈ s.listed, item.message.connection ∈ s.cancelCallbacks ↔
    p.mServiceHandle = some item.message.connection
  erased : ∀ item ∈ s.listed, p.mServiceHandle = some item.message.connection →
    ∃ t, Publisher.step s
        (.subscriberCancel item.message.connection item.message.uniqueToken) = some t ∧
      t.listed = s.listed.eraseP
        (fun x => item.message.uniqueToken == x.message.uniqueToken) ∧
      ((∀ other ∈ s.listed, other.message.uniqueToken = item.message.uniqueToken →
        other = item) → item ∉ t.listed)
  unheard : ∀ item ∈ s.listed, p.mServiceHandle ≠ some item.message.connection →
    Publisher.step s
      (.subscriberCancel item.message.connection item.message.uniqueToken) = none

theorem hearsCancels_of_run (service : Option LSHandle) (events : List Event) (s : Publisher)
    (p : SubscriptionPoint) (h : run Publisher.step (init service) events = some s)
    (hp : s.point = some p) : HearsCancels s p := by
  have hcallbacks : s.cancelCallbacks = p.mServiceHandle.toList := by
    rw [(attached_of_run h).callbacks, serviceHandle, hp]
    rfl
  have hmem : ∀ connection, connection ∈ s.cancelCallbacks ↔
      p.mServiceHandle = some connection := by
    intro connection
    rw [hcallbacks, Option.mem_toList]
  have hnodup : s.listed.Nodup :=
    List.Nodup.of_map _ (addressed_of_run h (addressed_init service)).listed_nodup
  refine ⟨hcallbacks, fun item _ => hmem _, ?_, ?_⟩
  · intro item hitem hconnection
    have henabled := (hmem _).mpr hconnection
    have herase := s.eraseIf_items hp fun x => item.message.uniqueToken == x.message.uniqueToken
    refine ⟨_, by simp [Publisher.step, enabled, henabled, hp, effect]; rfl, herase.1, ?_⟩
    intro halone
    rw [herase.1, not_mem_eraseP_iff hnodup hitem]
    cases hfind : s.listed.find? fun x => item.message.uniqueToken == x.message.uniqueToken with
    | none => simpa using List.find?_eq_none.mp hfind item hitem
    | some other =>
        have htoken : item.message.uniqueToken = other.message.uniqueToken := by
          simpa using List.find?_some hfind
        rw [halone other (List.mem_of_find?_eq_some hfind) htoken.symm]
  · intro item _ hconnection
    have hdisabled : item.message.connection ∉ s.cancelCallbacks := (hmem _).not.mpr hconnection
    simp [Publisher.step, enabled, hdisabled]

theorem hearsCancels_of_one :
    ∃ s p, run Publisher.step (init none) [.createItem ⟨"token", "client", 2⟩ true, .insertItem 0] =
        some s ∧ s.point = some p ∧ HearsCancels s p := by
  have h : run Publisher.step (init none)
      [.createItem ⟨"token", "client", 2⟩ true, .insertItem 0] = some _ := rfl
  exact ⟨_, _, h, rfl, hearsCancels_of_run none _ _ _ h rfl⟩

/-- The message came over connection 2, and the service handle is 1. -/
theorem cancel_unheard :
    ∃ s, run Publisher.step (init (some 1))
        [.createItem ⟨"token", "client", 2⟩ true, .insertItem 0] = some s ∧
      s.listed.map SubscriptionItem.message = [⟨"token", "client", 2⟩] ∧
      2 ∉ s.cancelCallbacks ∧ (Publisher.step s (.subscriberCancel 2 "token")).isNone = true :=
  ⟨_, rfl, rfl, by decide, rfl⟩

end Publisher

end LSHelpers
