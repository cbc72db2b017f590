import LSHelpers.Subscription.Threads

/-!
# What posting threads deliver

Subscribers receive the posts in the order in which the sources were attached. Where that
is the order in which the threads left the mutex, a run of the threads is a run of the
subscription point with every post made in one piece, at the moment it left the mutex.
-/

namespace LSHelpers

namespace Publisher

theorem step_of_not_dispatch (s : Publisher) {e : Publisher.Event} (he : e.isDispatch = false) :
    Publisher.step s e = if s.enabled e then s.point.map fun p => s.effect p e else none := by
  cases e with
  | dispatch => cases he
  | _ => rfl

/-- What does not post does not look at the end of the queue. -/
theorem step_withQueue {s t : Publisher} {e : Publisher.Event} (more : List PostData)
    (h : Publisher.step s e = some t) (he : ∀ payload hasContext, e ≠ .post payload hasContext) :
    Publisher.step { s with queue := s.queue ++ more } e =
      some { t with queue := t.queue ++ more } := by
  rcases Publisher.step_cases h with
    ⟨fails, data, queue, rfl, hqueue, rfl⟩ | ⟨hother, henabled, p, hp, rfl⟩
  · simp [Publisher.step, hqueue, postSubscriptions_keep]
  · have heffect : effect { s with queue := s.queue ++ more } p e =
        { s.effect p e with queue := (s.effect p e).queue ++ more } := by
      cases e with
      | post payload hasContext => exact absurd rfl (he payload hasContext)
      | createItem message registered =>
          simp only [effect, createItem]
          split <;> split <;> rfl
      | insertItem address =>
          simp only [effect, insertItem]
          split <;> rfl
      | subscriberCancel sh uniqueToken =>
          simp only [effect, subscriberCancelCB, eraseIf]
          split <;> rfl
      | subscriberStatus address isUp =>
          simp only [effect, subscriberStatusCB, eraseIf]
          split
          · rfl
          · split <;> rfl
      | setServiceHandle | setDeduplicate | dispatch | destroy => rfl
    have hallowed : enabled { s with queue := s.queue ++ more } e = true := henabled
    have hmap : s.point.map (fun p => effect { s with queue := s.queue ++ more } p e) =
        some { s.effect p e with queue := (s.effect p e).queue ++ more } :=
      Option.map_eq_some_iff.mpr ⟨p, hp, heffect⟩
    rw [step_of_not_dispatch _ hother, if_pos hallowed, hmap]

end Publisher

namespace Threads

open Transition Publisher

/-- The accepted posts of a run, in the order in which they left the mutex. -/
def lockedPosts (service : Option LSHandle) (events : List Threads.Event) : List Held :=
  history Threads.step locked (init service) events

/-- The posts whose sources were attached, in that order. -/
def attachedPosts (service : Option LSHandle) (events : List Threads.Event) : List Held :=
  history Threads.step attached (init service) events

def dispatchedPosts (service : Option LSHandle) (events : List Threads.Event) : List PostData :=
  history Threads.step dispatched (init service) events

/-- The source that is attached is that of the thread that left the mutex first. -/
def InOrder (s : Threads) (e : Threads.Event) : Prop :=
  ∀ x, s.attached e = some x → s.held.head? = some x

/-- The payloads a message is sent by a post. -/
def Held.payloadsFor (m : Message) (x : Held) : List String :=
  List.replicate (x.data.messages.count m) x.data.payload

variable {service : Option LSHandle} {events : List Threads.Event} {s t : Threads}

/-! ## The main loop -/

/-- The main loop takes what was attached, from the front. -/
theorem attached_eq_dispatched (h : run Threads.step (init service) events = some s) :
    (attachedPosts service events).map Held.data =
      dispatchedPosts service events ++ s.publisher.queue := by
  rw [attachedPosts, ← history_map]
  refine buffered_queue.in_order rfl h ?_
  intro pre e post m _ _ b hb
  cases e with
  | publisher e =>
      cases e with
      | dispatch fails => exact hb
      | _ => cases hb
  | _ => cases hb

/-- A dispatch sends one source; nothing else sends anything. -/
theorem step_sent {e : Threads.Event} (h : Threads.step s e = some t) :
    (∃ fails data, e = .publisher (.dispatch fails) ∧ s.dispatched e = some data ∧
      t.publisher.sent = s.publisher.sent ++ (postSubscriptions fails data).sent) ∨
    (e.isDispatch = false ∧ s.dispatched e = none ∧ t.publisher.sent = s.publisher.sent) := by
  rcases Threads.step_cases h with ⟨e', publisher, rfl, _, hstep, rfl⟩ |
    ⟨thread, payload, hasContext, p, rfl, _, _, rfl⟩ | ⟨p, x, rfl, _, _, rfl⟩ | ⟨x, rfl, _, rfl⟩
  · rcases step_queue hstep with ⟨fails, data, rfl, hqueue, hsent⟩ | ⟨hother, _, hsent⟩
    · exact .inl ⟨fails, data, rfl, by simp [dispatched, hqueue], hsent⟩
    · refine .inr ⟨hother, ?_, hsent⟩
      cases e' with
      | dispatch => cases hother
      | _ => rfl
  · refine .inr ⟨rfl, rfl, ?_⟩
    unfold enter
    split <;> rfl
  · exact .inr ⟨rfl, rfl, rfl⟩
  · exact .inr ⟨rfl, rfl, rfl⟩

theorem dispatched_length (h : run Threads.step (init service) events = some s) :
    (dispatchedPosts service events).length = events.countP Event.isDispatch := by
  refine run_history (P := fun events _ =>
    (dispatchedPosts service events).length = events.countP Event.isDispatch) rfl ?_ h
  intro events e m n hm hprev hn
  rw [dispatchedPosts, history_concat dispatched hm hn, List.length_append, List.countP_append,
    ← hprev, dispatchedPosts]
  rcases step_sent hn with ⟨fails, data, rfl, hdata, _⟩ | ⟨hother, hnone, _⟩
  · simp [hdata, Event.isDispatch, Publisher.Event.isDispatch]
  · simp [hnone, hother]

theorem sentTo_dispatched (h : run Threads.step (init service) events = some s)
    (hrespond : ∀ fails, .publisher (.dispatch fails) ∈ events → ∀ i, fails i = none)
    (m : Message) :
    sentTo m s.publisher.sent = (dispatchedPosts service events).flatMap fun data =>
      List.replicate (data.messages.count m) data.payload := by
  refine run_history (P := fun events s =>
    (∀ fails, .publisher (.dispatch fails) ∈ events → ∀ i, fails i = none) →
    sentTo m s.publisher.sent = (dispatchedPosts service events).flatMap fun data =>
      List.replicate (data.messages.count m) data.payload) ?_ ?_ h hrespond
  · intro _
    rfl
  · intro events e k n hk hprev hn hrespond
    have hold := hprev fun fails hmem => hrespond fails (List.mem_append_left _ hmem)
    rw [dispatchedPosts, history_concat dispatched hk hn, List.flatMap_append, ← dispatchedPosts,
      ← hold]
    rcases step_sent hn with ⟨fails, data, rfl, hdata, hsent⟩ | ⟨_, hnone, hsent⟩
    · rw [hsent, hdata]
      have hsend := sentTo_respondAll (hrespond fails (by simp)) m data.payload 0 data.messages
      rw [← postSubscriptions_sent] at hsend
      simpa [sentTo] using hsend
    · rw [hsent, hnone]
      simp

/-! ## Delivery -/

/-- A message is sent the posts in the order they were attached. -/
theorem stream_of_run (h : run Threads.step (init service) events = some s)
    (hrespond : ∀ fails, .publisher (.dispatch fails) ∈ events → ∀ i, fails i = none)
    (m : Message) :
    sentTo m s.publisher.sent =
      ((attachedPosts service events).take (events.countP Event.isDispatch)).flatMap
        (Held.payloadsFor m) := by
  have hdispatched := sentTo_dispatched h hrespond m
  have htaken : ((attachedPosts service events).take (events.countP Event.isDispatch)).map
      Held.data = dispatchedPosts service events := by
    rw [List.map_take, attached_eq_dispatched h, ← dispatched_length h, List.take_left]
  rw [hdispatched, ← htaken, List.flatMap_map]
  rfl

/-- What is asked of a run of the threads: a message is sent the posts in the order they
were attached, each as often as the message was listed when the post left the mutex; no
accepted post is lost or attached twice; a thread's own posts keep their order; and all of
them do exactly if every source was attached in turn. -/
structure Delivered (service : Option LSHandle) (events : List Threads.Event) (s : Threads) :
    Prop where
  stream : ∀ m, sentTo m s.publisher.sent =
    ((attachedPosts service events).take (events.countP Event.isDispatch)).flatMap
      (Held.payloadsFor m)
  complete : (lockedPosts service events).Perm (attachedPosts service events ++ s.held)
  perThread : ∀ thread, (lockedPosts service events).filter (fun x => x.thread = thread) =
    (attachedPosts service events).filter (fun x => x.thread = thread) ++
      s.held.filter (fun x => x.thread = thread)
  inOrder : attachedPosts service events <+: lockedPosts service events ↔
    Meets Threads.step InOrder (init service) events

/-- For every interleaving of posting threads with everything else. -/
theorem delivered_of_run (service : Option LSHandle) (events : List Threads.Event) (s : Threads)
    (h : run Threads.step (init service) events = some s)
    (hrespond : ∀ fails, .publisher (.dispatch fails) ∈ events → ∀ i, fails i = none) :
    Delivered service events s where
  stream := stream_of_run h hrespond
  complete := buffered_held.perm rfl h
  perThread := by
    refine buffered_held.order_of_key Held.thread rfl ?_ h
    intro pre m hm
    exact (oneEach_of_run hm).sublist (List.sublist_append_right _ _)
  inOrder := buffered_held.prefix_iff rfl h

/-- The second thread overtakes the first. -/
theorem delivered_of_run_overtaken :
    let client : Message := ⟨"token", "client", 1⟩
    let events : List Threads.Event := [.publisher (.createItem client true),
      .publisher (.insertItem 0), .enter 1 "old" true, .enter 2 "new" true, .lock 1, .lock 2,
      .attach 2, .attach 1, .publisher (.dispatch fun _ => none),
      .publisher (.dispatch fun _ => none)]
    ∃ s, run Threads.step (init (some 1)) events = some s ∧ Delivered (some 1) events s ∧
      sentTo client s.publisher.sent = ["new", "old"] :=
  ⟨_, rfl, delivered_of_run (some 1) _ _ rfl (by simp), rfl⟩

/-! ## Posts in one piece -/

/-- The event of a subscription point whose posts are made in one piece. -/
def atomic (s : Threads) : Threads.Event → Option Publisher.Event
  | .publisher e => some e
  | .lock thread => (s.entered.find? fun x => x.thread == thread).map fun x => .post x.payload true
  | .enter _ _ _ | .attach _ => none

/-- The subscription point with the held posts attached. -/
def settled (s : Threads) : Publisher :=
  { s.publisher with queue := s.publisher.queue ++ s.held.map Held.data }

/-- The handle a post was let in with is still there when it takes the mutex. -/
def handleKept (s : Threads) : Threads.Event → Bool
  | .lock _ => s.publisher.point.all fun p => p.mServiceHandle.isSome
  | _ => true

/-- Sources are attached in turn, and the handle is not taken away within a post. -/
structure Linear (s : Threads) (e : Threads.Event) : Prop where
  inOrder : s.InOrder e
  handle : s.handleKept e = true

instance decidableInOrder (s : Threads) (e : Threads.Event) : Decidable (s.InOrder e) :=
  match h : s.attached e with
  | none => isTrue fun x hx => by simp [h] at hx
  | some x => decidable_of_iff (s.held.head? = some x) (by simp [InOrder, h])

instance decidableLinear (s : Threads) (e : Threads.Event) : Decidable (s.Linear e) :=
  decidable_of_iff (s.InOrder e ∧ s.handleKept e = true) ⟨fun h => ⟨h.1, h.2⟩, fun h => ⟨h.1, h.2⟩⟩

/-- Each event is one of the subscription point with its posts in one piece, or none. -/
theorem Linear.step {e : Threads.Event} (h : s.Linear e) (hstep : Threads.step s e = some t) :
    run Publisher.step s.settled (s.atomic e).toList = some t.settled := by
  rcases Threads.step_cases hstep with ⟨e', publisher, rfl, hallowed, hpublisher, rfl⟩ |
    ⟨thread, payload, hasContext, p, rfl, _, _, rfl⟩ | ⟨p, x, rfl, hp, hx, rfl⟩ | ⟨x, rfl, hx, rfl⟩
  · have hnone : ∀ payload hasContext, e' ≠ .post payload hasContext := by
      rintro payload hasContext rfl
      cases hallowed
    have hqueue := step_withQueue (s.held.map Held.data) hpublisher hnone
    simpa [atomic, settled, run] using hqueue
  · unfold enter
    split <;> rfl
  · have hhandle := h.handle
    simp only [handleKept, hp, Option.all_some] at hhandle
    have hnone : p.mServiceHandle.isNone = false := by simpa using hhandle
    have hpost : Publisher.step s.settled (.post x.payload true) = some (s.lock p x).settled := by
      simp only [Publisher.step, enabled, if_true, settled, hp, Option.map_some, effect, post,
        SubscriptionPoint.post_eq, hnone, Bool.not_true, Bool.or_false, Bool.false_eq_true,
        if_false, lock]
      cases (p.postLocked x.payload).1 <;> simp
    simpa [atomic, hx, run] using hpost
  · have hhead := h.inOrder x hx
    rcases List.head?_eq_some_iff.mp hhead with ⟨rest, hheld⟩
    simp [atomic, settled, attach, hheld]

/-- A run in which every step is linear is a run with every post in one piece, made when
it left the mutex. -/
theorem linearized_of_run (service : Option LSHandle) (events : List Threads.Event) (s : Threads)
    (h : run Threads.step (init service) events = some s)
    (hlinear : Meets Threads.step Linear (init service) events) :
    run Publisher.step (.init service) (history Threads.step atomic (init service) events) =
      some s.settled := by
  refine run_induction (P := fun events s => run Publisher.step (.init service)
    (history Threads.step atomic (init service) events) = some s.settled) ?_ ?_ hlinear h
  · simp [settled, init, Publisher.init, setServiceHandle]
  · intro events e m n hm hprev hlin hn
    rw [history_concat atomic hm hn, run_append, hprev, Option.bind_some]
    exact hlin.step hn

/-- The parts of two posts interleave, and the sources are attached in turn. -/
theorem linearized_of_run_two :
    let client : Message := ⟨"token", "client", 1⟩
    let events : List Threads.Event := [.publisher (.setDeduplicate true), .enter 1 "old" true,
      .enter 2 "new" true, .lock 1, .publisher (.createItem client true),
      .publisher (.insertItem 0), .lock 2, .attach 1, .attach 2,
      .publisher (.dispatch fun _ => none), .publisher (.dispatch fun _ => none)]
    ∃ s, run Threads.step (init (some 1)) events = some s ∧
      run Publisher.step (.init (some 1)) (history Threads.step atomic (init (some 1)) events) =
        some s.settled :=
  ⟨_, rfl, linearized_of_run (some 1) _ _ rfl (by decide)⟩

end Threads

end LSHelpers
