import LSHelpers.Request.Owed
import LSHelpers.Subscription.Interleaving

/-!
# The first response of a subscriber

A subscriber is added by the handler of its own call, and posts may be made at once, by
the handler itself or by another thread. They are sent by the main loop, which is the
thread the handler runs on, so the reply to the call goes out before them. A handler that
defers its reply gives this up: its responses stand among the posts wherever they are given.
-/

namespace LSHelpers

/-- What a message is sent. -/
inductive Content
  | response (payload : Json)
  | post (payload : String)
deriving Repr

def Content.post? : Content → Option String
  | .post payload => some payload
  | .response _ => none

structure Wire where
  message : Message
  content : Content
deriving Repr

def Wire.ofDelivery (d : Delivery) : Wire := ⟨d.message, .post d.payload⟩

/-- A service that publishes: the posting threads, the call whose handler is running on the
main loop, the calls whose handlers have ended with what they were answered, those that
were deferred, and everything that was sent, in order. -/
structure Provider where
  threads : Threads
  handling : Option Message
  ended : List (Message × Option Json)
  deferred : List Message
  wire : List Wire

namespace Provider

open Transition

def init (service : Option LSHandle) : Provider := ⟨.init service, none, [], [], []⟩

inductive Event
  | call (m : Message)
  | handlerEnds (outcome : Outcome)
  | handlerDefers
  | deferredResponse (m : Message) (payload : Json)
  | threads (e : Threads.Event)

/-- The events of the main loop. A status callback may also come out of a registration. -/
def Event.onLoop : Event → Bool
  | .call _ | .threads (.publisher (.dispatch _))
  | .threads (.publisher (.subscriberCancel _ _)) => true
  | _ => false

/-- The message has not arrived yet. -/
def fresh (s : Provider) (m : Message) : Bool := m ∉ s.ended.map Prod.fst ++ s.deferred

/-- The main loop does nothing else while a handler runs on it, and a message arrives once. -/
def step (pf : Platform) (s : Provider) (e : Event) : Option Provider :=
  if e.onLoop && s.handling.isSome then none
  else
    match e with
    | .call m => if s.fresh m then some { s with handling := some m } else none
    | .handlerEnds outcome =>
        s.handling.map fun m =>
          { s with
            handling := none
            ended := s.ended ++ [(m, outcome.answer pf)]
            wire := s.wire ++ (outcome.answer pf).toList.map fun payload => ⟨m, .response payload⟩ }
    | .handlerDefers =>
        s.handling.map fun m => { s with handling := none, deferred := s.deferred ++ [m] }
    | .deferredResponse m payload =>
        if m ∈ s.deferred then some { s with wire := s.wire ++ [⟨m, .response payload⟩] } else none
    | .threads e =>
        (s.threads.step e).map fun threads =>
          { s with
            threads
            wire := s.wire ++ (threads.publisher.sent.drop s.threads.publisher.sent.length).map
              Wire.ofDelivery }

/-- A subscriber is added by the handler of its own call. -/
def addedByHandler (s : Provider) : Event → Bool
  | .threads (.publisher (.createItem m _)) => s.handling = some m
  | _ => true

/-! ## The messages a post can reach -/

end Provider

namespace Threads

/-- The messages that have an item, or stand in a post that has not been sent. -/
def reaches (s : Threads) : List Message :=
  (s.publisher.listed ++ s.publisher.adding).map SubscriptionItem.message ++
    (s.held.map Held.data ++ s.publisher.queue).flatMap PostData.messages

theorem exists_dispatch {e : Event} (h : e.isDispatch = true) :
    ∃ fails, e = .publisher (.dispatch fails) := by
  cases e with
  | publisher e =>
      cases e with
      | dispatch fails => exact ⟨fails, rfl⟩
      | _ => cases h
  | _ => cases h

/-- Only the making of an item adds a message. -/
theorem step_reaches {s t : Threads} {e : Event} (h : step s e = some t) {m : Message}
    (hm : m ∈ t.reaches) :
    m ∈ s.reaches ∨ ∃ registered, e = .publisher (.createItem m registered) := by
  simp only [reaches, List.mem_append, List.mem_map, List.mem_flatMap] at hm ⊢
  rcases step_cases h with ⟨e', publisher, rfl, hallowed, hstep, rfl⟩ |
    ⟨thread, payload, hasContext, p, rfl, _, _, rfl⟩ | ⟨p, x, rfl, hp, hx, rfl⟩ | ⟨x, rfl, hx, rfl⟩
  · rcases hm with ⟨item, hitem, rfl⟩ | ⟨data, hdata, hm⟩
    · rcases Publisher.step_items hstep with
        ⟨message, new, rfl, rfl, _, hlisted, hadding, _⟩ |
          ⟨new, hnew, rfl, hlisted, hadding, _⟩ | ⟨_, hlisted, hadding, _⟩
      · rw [hlisted, hadding, ← List.mem_append, ← List.append_assoc, List.mem_append,
          List.mem_singleton] at hitem
        rcases hitem with hitem | rfl
        · exact .inl (.inl ⟨item, List.mem_append.mp hitem, rfl⟩)
        · exact .inr ⟨true, rfl⟩
      · refine .inl (.inl ⟨item, ?_, rfl⟩)
        rw [hlisted, hadding, List.mem_append, List.mem_singleton] at hitem
        rcases hitem with (hitem | rfl) | hitem
        · exact .inl hitem
        · exact .inr hnew
        · exact .inr (List.mem_of_mem_erase hitem)
      · refine .inl (.inl ⟨item, ?_, rfl⟩)
        rw [hlisted, hadding] at hitem
        exact hitem.imp_left fun hitem => (e'.keep_sublist _).subset hitem
    · refine .inl (.inr ⟨data, ?_, hm⟩)
      rcases Publisher.step_queue hstep with ⟨fails, first, rfl, hqueue, _⟩ | ⟨_, hqueue, _⟩
      · rw [hqueue]
        exact hdata.imp_right (List.mem_cons_of_mem first)
      · have hnone : s.publisher.queued e' = none := by
          cases e' with
          | post => cases hallowed
          | _ => rfl
        rw [hqueue, hnone] at hdata
        simpa using hdata
  · unfold enter at hm
    split at hm <;> exact .inl hm
  · refine .inl ?_
    have hlisted : (s.lock p x).publisher.listed = s.publisher.listed := by
      simp only [lock, Publisher.listed, hp, Option.elim_some]
      unfold SubscriptionPoint.postLocked SubscriptionPoint.attach
      split_ifs <;> rfl
    have hsource : ∀ data, (p.postLocked x.payload).1 = some data →
        data.messages = s.publisher.listed.map SubscriptionItem.message := by
      intro data hdata
      unfold SubscriptionPoint.postLocked SubscriptionPoint.attach at hdata
      simp only [Publisher.listed, hp, Option.elim_some]
      split_ifs at hdata <;> cases hdata <;> rfl
    rcases hm with ⟨item, hitem, rfl⟩ | ⟨data, hdata, hm⟩
    · rw [hlisted] at hitem
      exact .inl ⟨item, hitem, rfl⟩
    · rcases hdata with ⟨y, hy, rfl⟩ | hqueue
      · rcases List.mem_append.mp hy with hheld | hnew
        · exact .inr ⟨y.data, .inl ⟨y, hheld, rfl⟩, hm⟩
        · rcases List.mem_map.mp hnew with ⟨source, hsome, rfl⟩
          rw [hsource source (Option.mem_toList.mp hsome)] at hm
          exact .inl ((List.mem_map.mp hm).imp fun item hitem => ⟨.inl hitem.1, hitem.2⟩)
      · exact .inr ⟨data, .inr hqueue, hm⟩
  · refine .inl (hm.imp_right ?_)
    rintro ⟨data, hdata, hm⟩
    refine ⟨data, ?_, hm⟩
    rcases hdata with ⟨y, hy, rfl⟩ | hqueue
    · exact .inl ⟨y, List.mem_of_mem_erase hy, rfl⟩
    · rcases List.mem_append.mp hqueue with hqueue | hnew
      · exact .inr hqueue
      · exact .inl ⟨x, List.mem_of_find?_eq_some hx, (List.mem_singleton.mp hnew).symm⟩

end Threads

namespace Provider

open Transition Publisher

variable {pf : Platform} {s t : Provider} {e : Provider.Event}

/-- What a message was sent, in order. -/
def wireTo (m : Message) (wire : List Wire) : List Content :=
  (wire.filter fun w => w.message = m).map Wire.content

theorem wireTo_append (m : Message) (wire more : List Wire) :
    wireTo m (wire ++ more) = wireTo m wire ++ wireTo m more := by
  simp [wireTo]

theorem wireTo_ofDelivery (m : Message) (ds : List Delivery) :
    wireTo m (ds.map Wire.ofDelivery) = (sentTo m ds).map Content.post := by
  simp only [wireTo, sentTo, List.filter_map, List.map_map]
  rfl

/-- The posts of one message. -/
theorem posts_ofDelivery (m : Message) (ds : List Delivery) :
    (wireTo m (ds.map Wire.ofDelivery)).filterMap Content.post? = sentTo m ds := by
  rw [wireTo_ofDelivery, List.filterMap_map]
  exact List.filterMap_some

/-- A response is on the wire of its own message. -/
theorem wireTo_responses (m m' : Message) (answer : Option Json) :
    wireTo m (answer.toList.map fun payload => ⟨m', .response payload⟩) =
      if m' = m then answer.toList.map Content.response else [] := by
  cases answer with
  | none => simp [wireTo]
  | some payload => by_cases h : m' = m <;> simp [wireTo, h]

theorem mem_of_respondAll {fails : Nat → Option RespondError} {payload : String} {i : Nat}
    {ms : List Message} {d : Delivery} (h : d ∈ (respondAll fails payload i ms).1) :
    d.message ∈ ms := by
  induction ms generalizing i with
  | nil => cases h
  | cons m ms ih =>
      unfold respondAll at h
      cases hfails : fails i with
      | some e => simp [hfails] at h
      | none =>
          simp only [hfails, List.mem_cons] at h
          rcases h with rfl | h
          · exact List.mem_cons_self
          · exact List.mem_cons_of_mem m (ih h)

theorem step_cases (h : step pf s e = some t) :
    (∃ m, e = .call m ∧ s.handling = none ∧ s.fresh m = true ∧ t = { s with handling := some m }) ∨
    (∃ m outcome, e = .handlerEnds outcome ∧ s.handling = some m ∧
      t = { s with
        handling := none
        ended := s.ended ++ [(m, outcome.answer pf)]
        wire := s.wire ++
          (outcome.answer pf).toList.map fun payload => ⟨m, .response payload⟩ }) ∨
    (∃ m, e = .handlerDefers ∧ s.handling = some m ∧
      t = { s with handling := none, deferred := s.deferred ++ [m] }) ∨
    (∃ m payload, e = .deferredResponse m payload ∧ m ∈ s.deferred ∧
      t = { s with wire := s.wire ++ [⟨m, .response payload⟩] }) ∨
    (∃ e' threads, e = .threads e' ∧ (e'.isDispatch = true → s.handling = none) ∧
      s.threads.step e' = some threads ∧
      t = { s with
        threads
        wire := s.wire ++ (threads.publisher.sent.drop s.threads.publisher.sent.length).map
          Wire.ofDelivery }) := by
  unfold step at h
  split at h
  · cases h
  · next hloop =>
      cases e with
      | call m =>
          dsimp only at h
          split at h
          · next hfresh =>
              have hidle : s.handling = none := by simpa [Event.onLoop] using hloop
              exact .inl ⟨m, rfl, hidle, hfresh, (Option.some.inj h).symm⟩
          · cases h
      | handlerEnds outcome =>
          rcases Option.map_eq_some_iff.mp h with ⟨m, hm, rfl⟩
          exact .inr (.inl ⟨m, outcome, rfl, hm, rfl⟩)
      | handlerDefers =>
          rcases Option.map_eq_some_iff.mp h with ⟨m, hm, rfl⟩
          exact .inr (.inr (.inl ⟨m, rfl, hm, rfl⟩))
      | deferredResponse m payload =>
          dsimp only at h
          split at h
          · next hm =>
              exact .inr (.inr (.inr (.inl ⟨m, payload, rfl, hm, (Option.some.inj h).symm⟩)))
          · cases h
      | threads e' =>
          rcases Option.map_eq_some_iff.mp h with ⟨threads, hthreads, rfl⟩
          refine .inr (.inr (.inr (.inr ⟨e', threads, rfl, ?_, hthreads, rfl⟩)))
          intro hdispatch
          rcases Threads.exists_dispatch hdispatch with ⟨fails, rfl⟩
          simpa [Event.onLoop] using hloop

/-- Nobody is sent anything before its own handler has ended or deferred. A handler that ends
has its answer sent first, and after it the posts; one that defers has the posts sent in the
same order, with its responses among them. -/
structure AnsweredFirst (s : Provider) : Prop where
  answered : ∀ m answer, (m, answer) ∈ s.ended → wireTo m s.wire =
    answer.toList.map Content.response ++ (sentTo m s.threads.publisher.sent).map Content.post
  deferring : ∀ m ∈ s.deferred,
    (wireTo m s.wire).filterMap Content.post? = sentTo m s.threads.publisher.sent
  unanswered : ∀ m, s.fresh m = true → wireTo m s.wire = []

theorem fresh_iff {m : Message} :
    s.fresh m = true ↔ m ∉ s.ended.map Prod.fst ∧ m ∉ s.deferred := by
  simp [fresh]

/-- The invariant: a post reaches only messages whose handlers have been entered. -/
structure Known (s : Provider) : Prop extends AnsweredFirst s where
  reached : ∀ m ∈ s.threads.reaches, s.fresh m = true → s.handling = some m
  current : ∀ m, s.handling = some m → s.fresh m = true
  unsent : ∀ m, s.fresh m = true → sentTo m s.threads.publisher.sent = []
  apart : ∀ m ∈ s.deferred, m ∉ s.ended.map Prod.fst

/-- The posts of one dispatch, on the wire. -/
theorem Known.dispatch (h : s.Known) (hidle : s.handling = none)
    {fails : Nat → Option RespondError} {data : PostData}
    (hdata : data ∈ s.threads.publisher.queue) {m : Message} (hm : s.fresh m = true) :
    sentTo m (postSubscriptions fails data).sent = [] := by
  rw [sentTo, List.map_eq_nil_iff, List.filter_eq_nil_iff]
  intro d hd hmessage
  obtain rfl : d.message = m := by simpa using hmessage
  rw [postSubscriptions_sent] at hd
  have hreach : d.message ∈ s.threads.reaches := by
    simp only [Threads.reaches, List.mem_append, List.mem_flatMap]
    exact .inr ⟨data, .inr hdata, mem_of_respondAll hd⟩
  have hcurrent := h.reached _ hreach hm
  rw [hidle] at hcurrent
  cases hcurrent

theorem Known.call (h : s.Known) (hidle : s.handling = none) {m : Message}
    (hfresh : s.fresh m = true) : Known { s with handling := some m } where
  answered := h.answered
  deferring := h.deferring
  unanswered := h.unanswered
  reached := by
    intro m' hm' hfresh'
    have hcurrent := h.reached m' hm' hfresh'
    rw [hidle] at hcurrent
    cases hcurrent
  current := by
    intro m' hm'
    obtain rfl := Option.some.inj hm'
    exact hfresh
  unsent := h.unsent
  apart := h.apart

/-- The end of a handler makes its message known. -/
theorem Known.reached_of_ended (h : s.Known) {m : Message} (hm : s.handling = some m)
    {m' : Message} (hreach : m' ∈ s.threads.reaches) (hfresh : s.fresh m' = true) : m' = m := by
  have hcurrent := h.reached m' hreach hfresh
  rw [hm] at hcurrent
  exact (Option.some.inj hcurrent).symm

theorem Known.handlerEnds (h : s.Known) {m : Message} (hm : s.handling = some m)
    (answer : Option Json) :
    Known { s with
      handling := none
      ended := s.ended ++ [(m, answer)]
      wire := s.wire ++ answer.toList.map fun payload => ⟨m, .response payload⟩ } := by
  have hfresh := h.current m hm
  have hknown := fresh_iff.mp hfresh
  have hnew (m' : Message) : m' ∉ (s.ended ++ [(m, answer)]).map Prod.fst ∧ m' ∉ s.deferred →
      s.fresh m' = true ∧ m' ≠ m := by
    rw [fresh_iff, List.map_append, List.mem_append, not_or]
    rintro ⟨⟨hended, hlast⟩, hdeferred⟩
    exact ⟨⟨hended, hdeferred⟩, by simpa using hlast⟩
  refine ⟨⟨?_, ?_, ?_⟩, ?_, by simp, ?_, ?_⟩
  · intro m' answer' hmem
    rw [wireTo_append, wireTo_responses]
    rcases List.mem_append.mp hmem with hold | hlast
    · have hne : m ≠ m' := by
        rintro rfl
        exact hknown.1 (List.mem_map_of_mem (f := Prod.fst) hold)
      rw [if_neg hne, List.append_nil]
      exact h.answered m' answer' hold
    · cases List.mem_singleton.mp hlast
      rw [h.unanswered m hfresh, h.unsent m hfresh]
      simp
  · intro m' hm'
    have hne : m ≠ m' := by
      rintro rfl
      exact hknown.2 hm'
    rw [wireTo_append, wireTo_responses, if_neg hne, List.append_nil]
    exact h.deferring m' hm'
  · intro m' hm'
    rcases hnew m' (fresh_iff.mp hm') with ⟨hfresh', hne⟩
    rw [wireTo_append, wireTo_responses, if_neg hne.symm, h.unanswered m' hfresh']
    rfl
  · intro m' hm' hnever
    rcases hnew m' (fresh_iff.mp hnever) with ⟨hfresh', hne⟩
    exact absurd (h.reached_of_ended hm hm' hfresh') hne
  · intro m' hm'
    exact h.unsent m' (hnew m' (fresh_iff.mp hm')).1
  · intro m' hm' hended
    rw [List.map_append, List.mem_append] at hended
    rcases hended with hold | hlast
    · exact h.apart m' hm' hold
    · obtain rfl : m' = m := by simpa using hlast
      exact hknown.2 hm'

theorem Known.handlerDefers (h : s.Known) {m : Message} (hm : s.handling = some m) :
    Known { s with handling := none, deferred := s.deferred ++ [m] } := by
  have hknown := fresh_iff.mp (h.current m hm)
  have hnew (m' : Message) : m' ∉ s.ended.map Prod.fst ∧ m' ∉ s.deferred ++ [m] →
      s.fresh m' = true ∧ m' ≠ m := by
    rw [fresh_iff, List.mem_append, not_or]
    rintro ⟨hended, hdeferred, hlast⟩
    exact ⟨⟨hended, hdeferred⟩, by simpa using hlast⟩
  refine ⟨⟨h.answered, ?_, ?_⟩, ?_, by simp, ?_, ?_⟩
  · intro m' hm'
    rcases List.mem_append.mp hm' with hold | hlast
    · exact h.deferring m' hold
    · obtain rfl := List.mem_singleton.mp hlast
      have hnothing := h.unanswered m' (h.current m' hm)
      have hunsent := h.unsent m' (h.current m' hm)
      exact (congrArg (List.filterMap Content.post?) hnothing).trans hunsent.symm
  · intro m' hm'
    exact h.unanswered m' (hnew m' (fresh_iff.mp hm')).1
  · intro m' hm' hnever
    rcases hnew m' (fresh_iff.mp hnever) with ⟨hfresh', hne⟩
    exact absurd (h.reached_of_ended hm hm' hfresh') hne
  · intro m' hm'
    exact h.unsent m' (hnew m' (fresh_iff.mp hm')).1
  · intro m' hm'
    rcases List.mem_append.mp hm' with hold | hlast
    · exact h.apart m' hold
    · rw [List.mem_singleton.mp hlast]
      exact hknown.1

theorem Known.deferredResponse (h : s.Known) {m : Message} (hm : m ∈ s.deferred)
    (payload : Json) : Known { s with wire := s.wire ++ [⟨m, .response payload⟩] } := by
  have hother (m' : Message) (hne : m ≠ m') :
      wireTo m' (s.wire ++ [⟨m, .response payload⟩]) = wireTo m' s.wire := by
    have hresponse := wireTo_responses m' m (some payload)
    rw [if_neg hne] at hresponse
    rw [wireTo_append]
    exact (congrArg _ hresponse).trans (List.append_nil _)
  refine ⟨⟨?_, ?_, ?_⟩, h.reached, h.current, h.unsent, h.apart⟩
  · intro m' answer hmem
    rw [hother m', h.answered m' answer hmem]
    rintro rfl
    exact h.apart m hm (List.mem_map_of_mem (f := Prod.fst) hmem)
  · intro m' hm'
    by_cases hsame : m = m'
    · subst hsame
      have hresponse := wireTo_responses m m (some payload)
      rw [if_pos rfl] at hresponse
      have hnone : (wireTo m [⟨m, .response payload⟩]).filterMap Content.post? = [] :=
        congrArg (List.filterMap Content.post?) hresponse
      rw [wireTo_append, List.filterMap_append, hnone, List.append_nil]
      exact h.deferring m hm'
    · rw [hother m' hsame]
      exact h.deferring m' hm'
  · intro m' hm'
    rw [hother m', h.unanswered m' hm']
    rintro rfl
    exact (fresh_iff.mp hm').2 hm

theorem Known.threads (h : s.Known) {e : Threads.Event}
    (hadded : s.addedByHandler (.threads e) = true)
    (hloop : e.isDispatch = true → s.handling = none)
    {threads : Threads} (hstep : s.threads.step e = some threads) :
    Known { s with
      threads
      wire := s.wire ++ (threads.publisher.sent.drop s.threads.publisher.sent.length).map
        Wire.ofDelivery } := by
  have hreached : ∀ m ∈ threads.reaches, s.fresh m = true → s.handling = some m := by
    intro m hm hfresh
    rcases Threads.step_reaches hstep hm with hold | ⟨registered, rfl⟩
    · exact h.reached m hold hfresh
    · exact of_decide_eq_true hadded
  have hmore : ∃ more, threads.publisher.sent = s.threads.publisher.sent ++ more ∧
      ∀ m, s.fresh m = true → sentTo m more = [] := by
    rcases Threads.step_sent hstep with ⟨fails, data, rfl, hdata, hsent⟩ | ⟨_, _, hsent⟩
    · refine ⟨_, hsent, ?_⟩
      intro m hm
      exact h.dispatch (hloop rfl) (List.mem_of_mem_head? hdata) hm
    · exact ⟨[], by simpa using hsent, fun _ _ => rfl⟩
  rcases hmore with ⟨more, hsent, hnone⟩
  have happend (m : Message) : sentTo m threads.publisher.sent =
      sentTo m s.threads.publisher.sent ++ sentTo m more := by
    rw [hsent]
    simp [sentTo]
  rw [hsent, List.drop_left]
  refine ⟨⟨?_, ?_, ?_⟩, hreached, h.current, ?_, h.apart⟩
  · intro m answer hmem
    rw [wireTo_append, wireTo_ofDelivery, h.answered m answer hmem, happend, List.map_append,
      List.append_assoc]
  · intro m hm
    rw [wireTo_append, List.filterMap_append, posts_ofDelivery, h.deferring m hm, happend]
  · intro m hm
    have hfresh : s.fresh m = true := hm
    rw [wireTo_append, wireTo_ofDelivery, h.unanswered m hfresh, hnone m hfresh]
    rfl
  · intro m hm
    have hfresh : s.fresh m = true := hm
    rw [happend, h.unsent m hfresh, hnone m hfresh]
    rfl

theorem Known.step (h : s.Known) (hadded : s.addedByHandler e = true)
    (hstep : Provider.step pf s e = some t) : t.Known := by
  rcases step_cases hstep with ⟨m, rfl, hidle, hfresh, rfl⟩ | ⟨m, outcome, rfl, hm, rfl⟩ |
    ⟨m, rfl, hm, rfl⟩ | ⟨m, payload, rfl, hm, rfl⟩ | ⟨e', threads, rfl, hloop, hthreads, rfl⟩
  · exact h.call hidle hfresh
  · exact h.handlerEnds hm (outcome.answer pf)
  · exact h.handlerDefers hm
  · exact h.deferredResponse hm payload
  · exact h.threads hadded hloop hthreads

theorem known_init (service : Option LSHandle) : (init service).Known := by
  refine ⟨⟨?_, ?_, ?_⟩, ?_, ?_, ?_, ?_⟩ <;>
    simp [init, Threads.init, Threads.reaches, Publisher.init, setServiceHandle, listed, wireTo,
      sentTo]

theorem known_of_run {service : Option LSHandle} {events : List Provider.Event}
    (h : run (Provider.step pf) (init service) events = some s)
    (hadded : Meets (Provider.step pf) (fun m e => m.addedByHandler e = true) (init service)
      events) :
    s.Known :=
  run_induction (P := fun _ (s : Provider) => s.Known) (known_init service)
    (fun _ _ _ _ _ hm he hn => hm.step he hn) hadded h

/-- In every run in which subscribers are added by the handlers of their own calls, a
message is sent nothing before its handler has ended or deferred, then the handler's answer
if it has ended, and then its posts. -/
theorem answeredFirst_of_run (pf : Platform) (service : Option LSHandle)
    (events : List Provider.Event) (s : Provider)
    (h : run (Provider.step pf) (init service) events = some s)
    (hadded : Meets (Provider.step pf) (fun m e => m.addedByHandler e = true) (init service)
      events) :
    s.AnsweredFirst := (known_of_run h hadded).toAnsweredFirst

/-- The handler adds its subscriber, and another thread posts before the handler returns. -/
theorem answeredFirst_of_run_early :
    let client : Message := ⟨"token", "client", 1⟩
    let events : List Provider.Event := [.call client,
      .threads (.publisher (.createItem client true)), .threads (.publisher (.insertItem 0)),
      .threads (.enter 1 "early" true), .threads (.lock 1), .threads (.attach 1),
      .handlerEnds (.returns (.valid (.bool true))),
      .threads (.publisher (.dispatch fun _ => none))]
    ∃ s, run (Provider.step .ofEmptyObject) (init (some 1)) events = some s ∧ s.AnsweredFirst ∧
      wireTo client s.wire =
        [.response (.object [("returnValue", .bool true)]), .post "early"] := by
  intro client events
  exact ⟨_, rfl, answeredFirst_of_run .ofEmptyObject (some 1) events _ rfl (by decide), rfl⟩

end Provider

end LSHelpers
