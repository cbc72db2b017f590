import LSHelpers.Subscription.Delivery
import LSHelpers.Transition.Buffer

/-!
# Posts from many threads

Any thread may post. A `post` has three parts that other threads can come between: the
checks of the handle and its context, the part under the mutex, which compares the payload
and copies the messages, and the attaching of the source. The order in which threads leave
the mutex is therefore not always the order in which their sources are attached. The loop
they are attached to is one for all handles, as in `Publisher`.
-/

namespace LSHelpers

/-- The part of `post` under the mutex: the source to attach, unless the payload is a
duplicate. -/
def SubscriptionPoint.postLocked (p : SubscriptionPoint) (payload : String) :
    Option PostData × SubscriptionPoint :=
  if p.mDeduplicate then
    if payload == p.mPreviousPayload then (none, p)
    else ({ p with mPreviousPayload := payload }.attach payload).2
  else (p.attach payload).2

/-- `post` is its three parts. -/
theorem SubscriptionPoint.post_eq (p : SubscriptionPoint) (hasContext : Bool) (payload : String) :
    p.post hasContext payload =
      if p.mServiceHandle.isNone || !hasContext then (false, none, p)
      else (true, p.postLocked payload) := by
  unfold post postLocked attach
  cases p.mServiceHandle <;> cases hasContext <;> cases p.mDeduplicate <;>
    by_cases h : payload = p.mPreviousPayload <;> simp [h]

/-- A `post` that has passed the checks of the handle and the context. -/
structure Entered where
  thread : Nat
  payload : String
deriving Repr, DecidableEq

/-- A `post` that has left the mutex with its copy of the messages. -/
structure Held where
  thread : Nat
  data : PostData
deriving Repr, DecidableEq

structure Threads where
  publisher : Publisher
  entered : List Entered
  held : List Held
deriving Repr

namespace Threads

open Transition

def init (service : Option LSHandle) : Threads := ⟨.init service, [], []⟩

inductive Event
  | publisher (e : Publisher.Event)
  | enter (thread : Nat) (payload : String) (hasContext : Bool)
  | lock (thread : Nat)
  | attach (thread : Nat)

/-- The thread is inside `post`. -/
def busy (s : Threads) (thread : Nat) : Bool :=
  thread ∈ s.entered.map Entered.thread ++ s.held.map Held.thread

def enter (s : Threads) (p : SubscriptionPoint) (thread : Nat) (payload : String)
    (hasContext : Bool) : Threads :=
  if p.mServiceHandle.isNone || !hasContext then s
  else { s with entered := s.entered ++ [⟨thread, payload⟩] }

def lock (s : Threads) (p : SubscriptionPoint) (x : Entered) : Threads where
  publisher := { s.publisher with point := some (p.postLocked x.payload).2 }
  entered := s.entered.erase x
  held := s.held ++ (p.postLocked x.payload).1.toList.map (Held.mk x.thread)

def attach (s : Threads) (x : Held) : Threads :=
  { s with
    publisher := { s.publisher with queue := s.publisher.queue ++ [x.data] }
    held := s.held.erase x }

/-- The posts are those of the threads, and the object is not destroyed under one that
still has to look at it. -/
def allowed (s : Threads) : Publisher.Event → Bool
  | .post _ _ => false
  | .destroy => s.entered.isEmpty
  | _ => true

def step (s : Threads) : Event → Option Threads
  | .publisher e =>
      if s.allowed e then (s.publisher.step e).map fun publisher => { s with publisher } else none
  | .enter thread payload hasContext =>
      s.publisher.point.bind fun p =>
        if s.busy thread then none else some (s.enter p thread payload hasContext)
  | .lock thread =>
      s.publisher.point.bind fun p =>
        (s.entered.find? fun x => x.thread == thread).map (s.lock p)
  | .attach thread => (s.held.find? fun x => x.thread == thread).map s.attach

/-- The post that leaves the mutex with a source in an event. -/
def locked (s : Threads) : Event → Option Held
  | .lock thread =>
      s.publisher.point.bind fun p =>
        (s.entered.find? fun x => x.thread == thread).bind fun x =>
          (p.postLocked x.payload).1.map (Held.mk thread)
  | _ => none

/-- The post whose source an event attaches. -/
def attached (s : Threads) : Event → Option Held
  | .attach thread => s.held.find? fun x => x.thread == thread
  | _ => none

/-- The source an event dispatches. -/
def dispatched (s : Threads) : Event → Option PostData
  | .publisher (.dispatch _) => s.publisher.queue.head?
  | _ => none

def Event.isDispatch : Event → Bool
  | .publisher e => e.isDispatch
  | _ => false

/-! ## What a step does -/

theorem step_cases {s t : Threads} {e : Event} (h : step s e = some t) :
    (∃ e' publisher, e = .publisher e' ∧ s.allowed e' = true ∧
      s.publisher.step e' = some publisher ∧ t = { s with publisher }) ∨
    (∃ thread payload hasContext p, e = .enter thread payload hasContext ∧
      s.publisher.point = some p ∧ s.busy thread = false ∧
      t = s.enter p thread payload hasContext) ∨
    (∃ p x, e = .lock x.thread ∧ s.publisher.point = some p ∧
      (s.entered.find? fun y => y.thread == x.thread) = some x ∧ t = s.lock p x) ∨
    (∃ x, e = .attach x.thread ∧ (s.held.find? fun y => y.thread == x.thread) = some x ∧
      t = s.attach x) := by
  cases e with
  | publisher e =>
      simp only [step] at h
      split at h
      · next hallowed =>
          rcases Option.map_eq_some_iff.mp h with ⟨publisher, hstep, rfl⟩
          exact .inl ⟨e, publisher, rfl, hallowed, hstep, rfl⟩
      · cases h
  | enter thread payload hasContext =>
      rcases Option.bind_eq_some_iff.mp h with ⟨p, hp, hite⟩
      split at hite
      · cases hite
      · next hbusy =>
          exact .inr (.inl ⟨thread, payload, hasContext, p, rfl, hp, by simpa using hbusy,
            (Option.some.inj hite).symm⟩)
  | lock thread =>
      rcases Option.bind_eq_some_iff.mp h with ⟨p, hp, hmap⟩
      rcases Option.map_eq_some_iff.mp hmap with ⟨x, hx, rfl⟩
      obtain rfl : x.thread = thread := by simpa using List.find?_some hx
      exact .inr (.inr (.inl ⟨p, x, rfl, hp, hx, rfl⟩))
  | attach thread =>
      rcases Option.map_eq_some_iff.mp h with ⟨x, hx, rfl⟩
      obtain rfl : x.thread = thread := by simpa using List.find?_some hx
      exact .inr (.inr (.inr ⟨x, rfl, hx, rfl⟩))

/-- An item found by its thread stands before and behind the others. -/
theorem find?_split {l : List Held} {x : Held}
    (h : (l.find? fun y => y.thread == x.thread) = some x) :
    ∃ front back, l = front ++ x :: back ∧ x ∉ front ∧ l.erase x = front ++ back := by
  rcases List.find?_eq_some_iff_append.mp h with ⟨_, front, back, rfl, hfront⟩
  have hx : x ∉ front := by
    intro hx
    simpa using hfront x hx
  refine ⟨front, back, rfl, hx, ?_⟩
  rw [List.erase_append_right _ hx, List.erase_cons_head]

/-- Between the mutex and the main loop a post is held. -/
theorem buffered_held : Buffered step held locked attached where
  cases := by
    intro s e t h
    rcases step_cases h with ⟨e', publisher, rfl, _, _, rfl⟩ |
      ⟨thread, payload, hasContext, p, rfl, _, _, rfl⟩ | ⟨p, x, rfl, hp, hx, rfl⟩ |
      ⟨x, rfl, hx, rfl⟩
    · exact .inl ⟨rfl, by simp [locked]⟩
    · refine .inl ⟨rfl, ?_⟩
      unfold enter
      split <;> simp [locked]
    · refine .inl ⟨rfl, ?_⟩
      simp only [lock, locked, hp, hx, Option.bind_some]
      cases (p.postLocked x.payload).1 <;> rfl
    · rcases find?_split hx with ⟨front, back, hheld, hfirst, herase⟩
      exact .inr ⟨rfl, front, x, back, hx, hheld, hfirst, herase⟩

/-- The main loop takes its sources from the front. -/
theorem buffered_queue :
    Buffered step (fun s => s.publisher.queue) (fun s e => (s.attached e).map Held.data)
      dispatched where
  cases := by
    intro s e t h
    rcases step_cases h with ⟨e', publisher, rfl, hallowed, hstep, rfl⟩ |
      ⟨thread, payload, hasContext, p, rfl, _, _, rfl⟩ | ⟨p, x, rfl, hp, hx, rfl⟩ |
      ⟨x, rfl, hx, rfl⟩
    · rcases Publisher.step_queue hstep with ⟨fails, data, rfl, hqueue, _⟩ | ⟨hother, hqueue, _⟩
      · exact .inr ⟨rfl, [], data, publisher.queue, by simp [dispatched, hqueue], hqueue,
          List.not_mem_nil, rfl⟩
      · have hnone : s.publisher.queued e' = none := by
          cases e' with
          | post => cases hallowed
          | _ => rfl
        refine .inl ⟨?_, ?_⟩
        · cases e' with
          | dispatch => cases hother
          | _ => rfl
        · rw [hqueue, hnone]
          simp [attached]
    · refine .inl ⟨rfl, ?_⟩
      unfold enter
      split <;> simp [attached]
    · exact .inl ⟨rfl, by simp [lock, attached]⟩
    · exact .inl ⟨rfl, by simp [attach, attached, hx]⟩

/-! ## Threads and their posts -/

/-- A thread is inside one `post` at a time. -/
def OneEach (s : Threads) : Prop :=
  (s.entered.map Entered.thread ++ s.held.map Held.thread).Nodup

theorem OneEach.step {s t : Threads} {e : Event} (h : s.OneEach) (hstep : step s e = some t) :
    t.OneEach := by
  rcases step_cases hstep with ⟨e', publisher, rfl, _, _, rfl⟩ |
    ⟨thread, payload, hasContext, p, rfl, _, hbusy, rfl⟩ | ⟨p, x, rfl, hp, hx, rfl⟩ |
      ⟨x, rfl, hx, rfl⟩
  · exact h
  · unfold enter
    split
    · exact h
    · simp only [busy, decide_eq_false_iff_not] at hbusy
      have hcons : (thread :: (s.entered.map Entered.thread ++ s.held.map Held.thread)).Nodup :=
        List.nodup_cons.mpr ⟨hbusy, h⟩
      simpa [OneEach] using List.perm_middle.nodup_iff.mpr hcons
  · have hmem := List.mem_of_find?_eq_some hx
    have hmoved : (s.entered.map Entered.thread).Perm
        (x.thread :: (s.entered.erase x).map Entered.thread) :=
      (List.perm_cons_erase hmem).map Entered.thread
    have hall := (hmoved.append_right (s.held.map Held.thread)).nodup_iff.mp h
    rw [List.cons_append, List.nodup_cons] at hall
    simp only [OneEach, lock, List.map_append, List.map_map]
    cases (p.postLocked x.payload).1 with
    | none => simpa using hall.2
    | some data =>
        have hnodup := List.nodup_cons.mpr hall
        rw [← List.append_assoc]
        exact (List.perm_append_singleton _ _).nodup_iff.mpr hnodup
  · have hsub : ((s.held.erase x).map Held.thread).Sublist (s.held.map Held.thread) :=
      List.erase_sublist.map _
    exact h.sublist (hsub.append_left _)

theorem oneEach_of_run {service : Option LSHandle} {events : List Event} {s : Threads}
    (h : run step (init service) events = some s) : s.OneEach :=
  run_invariant (fun _ _ _ hm hn => hm.step hn) h List.nodup_nil

end Threads

end LSHelpers
