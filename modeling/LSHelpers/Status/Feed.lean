import LSHelpers.Response.JsonResponse
import LSHelpers.Status.Exits

/-!
# What a persistent subscription hands on

The bus gives the responses to a call to `onCallResponse`, with the object as context, and
the object hands them to the handler it has at that moment. Over restarts of the service
and changes of the subscription this is still the handler the call was made for.

A handler that uses the object does so after its own start, so what it does follows in
the run.
-/

namespace LSHelpers

open Transition

/-- A call the object has made, with what the service has sent to it. -/
structure FeedCall where
  call : Subscription
  outstanding : Bool
  sent : List ResponseMessage
  taken : Nat
deriving Repr

/-- `handled` has the responses with the handlers that they were handed to. -/
structure Feed where
  subscriber : Subscriber
  calls : List FeedCall
  handled : List (Option Nat × JsonResponse)

namespace Feed

def init : Feed := ⟨.init, [], []⟩

inductive Event
  | subscriber (e : Subscriber.Event)
  | send (i : Nat) (message : ResponseMessage)
  | deliver (i : Nat)

/-- The calls when the object has moved: one may be cancelled, and one may be new. -/
def follow (s : Feed) (t : Subscriber) : List FeedCall :=
  (s.calls.map fun c => { c with outstanding := c.outstanding && t.calls.contains c.call }) ++
    (t.calls.filter fun c => !s.subscriber.calls.contains c).map fun c => ⟨c, true, [], 0⟩

/-- `PersistentSubscription::onCallResponse`. -/
def onCallResponse (pf : Platform) (s : Feed) (msg : ResponseMessage) : Feed :=
  { s with
    handled := s.handled ++ [(s.subscriber.sub.mResultHandler,
      JsonResponse.handleLunaResponse pf pf.allSchema msg)] }

/-- The bus drops what belongs to a call that is cancelled. -/
def step (pf : Platform) (s : Feed) : Event → Option Feed
  | .subscriber e =>
      (s.subscriber.step pf e).map fun t => { s with subscriber := t, calls := s.follow t }
  | .send i message =>
      s.calls[i]?.map fun c =>
        { s with calls := s.calls.set i { c with sent := c.sent ++ [message] } }
  | .deliver i =>
      s.calls[i]?.bind fun c =>
        if c.outstanding then
          c.sent[c.taken]?.map fun message =>
            { s.onCallResponse pf message with
              calls := s.calls.set i { c with taken := c.taken + 1 } }
        else none

end Feed

/-- The call is the one a `subscribe` asks for. -/
def Subscription.IssuedBy (pf : Platform) (c : Subscription) : Subscriber.Event → Prop
  | .subscribe handle uri params handler _ _ _ =>
      handle = some c.handle ∧ c.uri = uri ∧ c.params = pf.serialize params ∧ handler.isSome = true
  | _ => False

namespace Subscriber

variable {pf : Platform} {s t : Subscriber} {e : Event}

/-! ## What the object is set up for -/

/-- The object has what a `subscribe` was given. -/
def Holds (pf : Platform) (s : Subscriber) : Event → Prop
  | .subscribe handle uri params handler _ _ _ =>
      s.sub.mHandle = handle ∧ s.sub.mUri = uri ∧ s.sub.mParams = pf.serialize params ∧
        s.sub.mResultHandler = handler ∧ handler.isSome = true
  | _ => False

/-- Behind its cancel, `subscribe` leaves no watch, or the object set up for it. -/
theorem afterCancel_holds (pf : Platform) (hidle : s.Idle) (handle : Option LSHandle)
    (uri : String) (params : JValue) (handler : Option Nat) (cancelOk endsCall : Bool)
    (registering : Registering) :
    let r := (s.afterCancel pf handle uri params handler cancelOk registering).2
    r.subscribes = s.subscribes ∧ (r.bus.registrations = [] ∨
      r.Holds pf (.subscribe handle uri params handler cancelOk endsCall registering)) := by
  have hnone := hidle.registrations
  cases handle with
  | none => exact ⟨rfl, .inl hnone⟩
  | some handle =>
      cases handler with
      | none => exact ⟨rfl, .inl hnone⟩
      | some handler =>
          unfold afterCancel
          dsimp only
          split_ifs
          · exact ⟨rfl, .inl hnone⟩
          · exact ⟨rfl, .inl hnone⟩
          · split
            · exact ⟨rfl, .inl hnone⟩
            · next serviceName _ =>
                rcases watch_of_no_cookie (s := s.prepared pf handle uri params handler)
                  hidle.cookie handle serviceName cancelOk registering with ⟨status, _, h⟩
                rw [h]
                exact ⟨rfl, .inr ⟨rfl, rfl, rfl, rfl, rfl⟩⟩

/-- A step of an object that is set up sets it up anew, takes its watch, or moves its call
from none to one or from one to none. -/
inductive Moved (pf : Platform) (s : Subscriber) : Event → Subscriber → Prop
  | subscribed {e : Event} {t : Subscriber} (he : e.isSubscribe = true)
      (hcount : t.subscribes = s.subscribes + 1) (hcalls : t.calls = [])
      (hready : t.bus.registrations = [] ∨ t.Holds pf e) : Moved pf s e t
  | cancelled {cancelOk endsCall : Bool} {t : Subscriber} (hcount : t.subscribes = s.subscribes)
      (hcalls : t.calls = []) (hwatch : t.bus.registrations = []) :
      Moved pf s (.cancel cancelOk endsCall) t
  | issued {cookie : Nat} {serviceUp endsCall : Bool} {outcome : Option LSMessageToken}
      {t : Subscriber} {c : Subscription} (hwatch : s.bus.registrations ≠ []) (hcount : t.subscribes = s.subscribes)
      (hsame : ∀ e, s.Holds pf e → t.Holds pf e ∧ c.IssuedBy pf e) (hnone : s.calls = [])
      (hcalls : t.calls = [c]) (hepoch : c.epoch = s.subscribes) :
      Moved pf s (.notify cookie serviceUp outcome endsCall) t
  | kept {cookie : Nat} {serviceUp endsCall : Bool} {outcome : Option LSMessageToken}
      {t : Subscriber} (hwatch : s.bus.registrations ≠ []) (hcount : t.subscribes = s.subscribes)
      (hsame : ∀ e, s.Holds pf e → t.Holds pf e) (hcalls : t.calls = s.calls ∨ t.calls = []) :
      Moved pf s (.notify cookie serviceUp outcome endsCall) t

theorem holds_congr (hsub : t.sub.mHandle = s.sub.mHandle ∧ t.sub.mUri = s.sub.mUri ∧
      t.sub.mParams = s.sub.mParams ∧ t.sub.mResultHandler = s.sub.mResultHandler)
    (h : s.Holds pf e) : t.Holds pf e := by
  rcases hsub with ⟨hhandle, huri, hparams, hhandler⟩
  cases e with
  | subscribe => simpa only [Holds, hhandle, huri, hparams, hhandler] using h
  | cancel | notify => cases h

/-- An up notification makes the call that the object is set up for. -/
theorem KnowsCall.moved_up (h : s.KnowsCall) (hwatch : s.bus.registrations ≠ []) (cookie : Nat)
    (outcome : Option LSMessageToken) (endsCall : Bool) :
    Moved pf s (.notify cookie true outcome endsCall)
      (s.onServiceStatusResponse true outcome endsCall).2 := by
  unfold onServiceStatusResponse
  simp only [Bool.true_and, Bool.not_true, Bool.false_and, Bool.false_eq_true, if_false]
  split_ifs with htoken
  · split
    · rename_i handle token hhandle
      have hcalls : s.calls = [] := by
        rcases h with ⟨hcalls, _⟩ | ⟨c, _, hc, hvalid, _⟩
        · exact hcalls
        · exact absurd (hc.symm.trans (beq_iff_eq.mp htoken)) hvalid
      refine .issued hwatch rfl ?_ hcalls (by simp [hcalls]; rfl) rfl
      intro e he
      refine ⟨holds_congr ⟨rfl, rfl, rfl, rfl⟩ he, ?_⟩
      cases e with
      | subscribe =>
          rcases he with ⟨hset, huri, hparams, _, hsome⟩
          exact ⟨hset.symm.trans hhandle, huri, hparams, hsome⟩
      | cancel | notify => cases he
    · exact .kept hwatch rfl (fun _ he => he) (.inl rfl)
  · exact .kept hwatch rfl (fun _ he => he) (.inl rfl)

theorem KnowsCall.moved_down (h : s.KnowsCall) (hwatch : s.bus.registrations ≠ []) (cookie : Nat)
    (outcome : Option LSMessageToken) :
    Moved pf s (.notify cookie false outcome true)
      (s.onServiceStatusResponse false outcome true).2 := by
  have hcalls := (h.serviceDown outcome).2
  unfold onServiceStatusResponse at hcalls ⊢
  simp only [Bool.false_and, Bool.false_eq_true, if_false, Bool.not_false, Bool.true_and]
    at hcalls ⊢
  split_ifs at hcalls ⊢
  · rcases h.cancelSubscription with ⟨_, hsub, _, hcount⟩
    refine .kept hwatch hcount (fun e he => holds_congr ?_ he) (.inr hcalls)
    rw [hsub]
    exact ⟨rfl, rfl, rfl, rfl⟩
  · exact .kept hwatch rfl (fun _ he => he) (.inl rfl)

theorem Tracked.moved (h : s.Tracked) (hclean : s.ExitsClean e) (hends : e.endsCall = true)
    (hstep : Subscriber.step pf s e = some t) : Moved pf s e t := by
  rcases hclean with ⟨hlet, hreturns⟩
  cases e with
  | subscribe handle uri params handler cancelOk endsCall registering =>
      obtain rfl : endsCall = true := hends
      rw [(step_granted pf hlet).1] at hstep
      obtain rfl := Option.some.inj hstep
      rcases Tracked.cancel (s := { s with subscribes := s.subscribes + 1 }) ⟨h.watch, h.call⟩ with
        ⟨u, hu, hidle, hcount⟩
      have hcalls := (h.subscribe pf handle uri params handler hreturns).1
      rcases afterCancel_holds pf hidle handle uri params handler true true registering with
        ⟨hsame, hready⟩
      rw [subscribe_of_cancel pf handle uri params handler hu] at hcalls ⊢
      exact .subscribed rfl (hsame.trans hcount) hcalls hready
  | cancel cancelOk endsCall =>
      obtain rfl : endsCall = true := hends
      rw [(step_granted pf hlet).1] at hstep
      obtain rfl := Option.some.inj hstep
      rcases h.cancel with ⟨u, hu, hidle, hcount⟩
      rw [hu]
      exact .cancelled hcount hidle.calls hidle.registrations
  | notify cookie serviceUp outcome endsCall =>
      obtain rfl : endsCall = true := hends
      simp only [Subscriber.step] at hstep
      split at hstep
      · next hguard =>
          obtain rfl := Option.some.inj hstep
          have hwatch : s.bus.registrations ≠ [] := by
            intro hnone
            simp [hnone] at hguard
          cases serviceUp with
          | true => exact h.call.moved_up hwatch cookie outcome true
          | false => exact h.call.moved_down hwatch cookie outcome
      · cases hstep

end Subscriber

namespace Feed

variable {pf : Platform} {s t : Feed} {e : Event} {events : List Event}

/-! ## The calls and the subscriptions they are made for -/

def Event.ofSubscriber : Event → Option Subscriber.Event
  | .subscriber e => some e
  | _ => none

/-- The `subscribe` calls of a run. -/
def subscribes (events : List Event) : List Subscriber.Event :=
  (events.filterMap Event.ofSubscriber).filter Subscriber.Event.isSubscribe

/-- The `subscribe` that a call was made for. -/
def asker (events : List Event) (c : FeedCall) : Option Subscriber.Event :=
  (subscribes events)[c.call.epoch - 1]?

/-- The handler that was given to a `subscribe`. -/
def handlerOf : Subscriber.Event → Option Nat
  | .subscribe _ _ _ handler _ _ _ => handler
  | _ => none

/-- The responses to a call that have come back. -/
def received (pf : Platform) (c : FeedCall) : List JsonResponse :=
  (c.sent.take c.taken).map (JsonResponse.handleLunaResponse pf pf.allSchema)

/-- What is to be handed on for some calls: the responses of each, to the handler of its own
`subscribe`. -/
def stream (pf : Platform) (events : List Event) (calls : List FeedCall) :
    List (Option Nat × JsonResponse) :=
  calls.flatMap fun c => (received pf c).map fun r => ((asker events c).bind handlerOf, r)

/-- The invariant. `last` has the calls that are outstanding. -/
structure Fed (pf : Platform) (events : List Event) (s : Feed) : Prop where
  tracked : s.subscriber.Tracked
  current : s.subscriber.Current
  count : s.subscriber.subscribes = (subscribes events).length
  ready : s.subscriber.bus.registrations = [] ∧ s.subscriber.calls = [] ∨
    ∃ e, (subscribes events).getLast? = some e ∧ s.subscriber.Holds pf e
  outstanding : ∃ past last, s.calls = past ++ last ∧ (∀ c ∈ past, c.outstanding = false) ∧
    (∀ c ∈ last, c.outstanding = true) ∧ last.map FeedCall.call = s.subscriber.calls
  made : ∀ c ∈ s.calls, ∃ e, asker events c = some e ∧ c.call.IssuedBy pf e
  sent : ∀ c ∈ s.calls, c.taken ≤ c.sent.length
  handled : s.handled = stream pf events s.calls

theorem fed_init (pf : Platform) : Fed pf [] init where
  tracked := ⟨rfl, .inl ⟨rfl, rfl⟩⟩
  current := by simp [Subscriber.Current, init, Subscriber.init]
  count := rfl
  ready := .inl ⟨rfl, rfl⟩
  outstanding := ⟨[], [], rfl, by simp, by simp, rfl⟩
  made := by simp [init]
  sent := by simp [init]
  handled := rfl

/-- More of a run does not change what the calls were made for. -/
theorem asker_append {c : FeedCall} {e' : Subscriber.Event} (h : asker events c = some e')
    (more : List Event) : asker (events ++ more) c = some e' := by
  rcases List.getElem?_eq_some_iff.mp h with ⟨hlt, _⟩
  rw [asker, subscribes, List.filterMap_append, List.filter_append]
  exact (List.getElem?_append_left hlt).trans h

theorem stream_append {calls : List FeedCall}
    (hmade : ∀ c ∈ calls, ∃ e, asker events c = some e ∧ c.call.IssuedBy pf e)
    (more : List Event) : stream pf (events ++ more) calls = stream pf events calls := by
  unfold stream
  induction calls with
  | nil => rfl
  | cons c calls ih =>
      rcases hmade c List.mem_cons_self with ⟨e', he', _⟩
      rw [List.flatMap_cons, List.flatMap_cons, asker_append he' more, he',
        ih fun x hx => hmade x (List.mem_cons_of_mem c hx)]

/-- Changing a call, but not what has come back of it. -/
theorem stream_set {calls : List FeedCall} {i : Nat} {c c' : FeedCall} (hi : calls[i]? = some c)
    (hreceived : received pf c' = received pf c) (hcall : c'.call = c.call) :
    stream pf events (calls.set i c') = stream pf events calls := by
  rcases List.getElem?_eq_some_iff.mp hi with ⟨hlt, rfl⟩
  let part (c : FeedCall) : List (Option Nat × JsonResponse) :=
    (received pf c).map fun r => ((asker events c).bind handlerOf, r)
  have hlt' : i < (calls.map part).length := by simpa using hlt
  have hpart : part c' = (calls.map part)[i] := by
    simp [part, asker, hreceived, hcall]
  change (calls.set i c').flatMap part = calls.flatMap part
  rw [List.flatMap_def, List.map_set, hpart, List.set_getElem_self, ← List.flatMap_def]

/-! ## The calls follow the object -/

section

variable {past last : List FeedCall} {u : Subscriber}

theorem map_closed (hpast : ∀ c ∈ past, c.outstanding = false) (calls : List Subscription) :
    (past.map fun c => { c with outstanding := c.outstanding && calls.contains c.call }) =
      past := by
  refine (List.map_congr_left fun c hc => ?_).trans (List.map_id past)
  rw [hpast c hc, Bool.false_and, ← hpast c hc]
  rfl

/-- The object has no call. -/
theorem follow_none (hu : u.calls = []) :
    s.follow u = s.calls.map fun c => { c with outstanding := false } := by
  simp [follow, hu]

/-- The object keeps its calls. -/
theorem follow_same (hcalls : s.calls = past ++ last) (hpast : ∀ c ∈ past, c.outstanding = false)
    (hlast : last.map FeedCall.call = s.subscriber.calls) (hu : u.calls = s.subscriber.calls) :
    s.follow u = s.calls := by
  have hnone : (u.calls.filter fun c => !s.subscriber.calls.contains c) = [] := by
    rw [hu, List.filter_eq_nil_iff]
    simp
  have hkept : (last.map fun c =>
      { c with outstanding := c.outstanding && u.calls.contains c.call }) = last := by
    refine (List.map_congr_left fun c hc => ?_).trans (List.map_id last)
    have hmem : u.calls.contains c.call = true := by
      rw [hu, ← hlast, List.contains_iff_mem]
      exact List.mem_map_of_mem hc
    rw [hmem, Bool.and_true]
    rfl
  rw [follow, hnone, hcalls, List.map_append, map_closed hpast, hkept, List.map_nil,
    List.append_nil]

/-- The object, which had no call, makes one. -/
theorem follow_new (hpast : ∀ c ∈ s.calls, c.outstanding = false) (hnone : s.subscriber.calls = [])
    {c : Subscription} (hu : u.calls = [c]) : s.follow u = s.calls ++ [⟨c, true, [], 0⟩] := by
  rw [follow, map_closed hpast, hu, hnone]
  rfl

end

/-- A watch that is to be cancelled is let go of, a call that is to be cancelled is ended, and
no callback throws out of a registration. -/
def LetsGo (s : Feed) (e : Event) : Prop :=
  ∀ e', e.ofSubscriber = some e' → s.subscriber.ExitsClean e' ∧ e'.endsCall = true

namespace Fed

variable {u : Subscriber} {e' : Subscriber.Event}

theorem subscribes_concat (events : List Event) (e' : Subscriber.Event) :
    subscribes (events ++ [.subscriber e']) =
      subscribes events ++ if e'.isSubscribe then [e'] else [] := by
  rw [subscribes, List.filterMap_append, List.filter_append]
  cases h : e'.isSubscribe <;> simp [Event.ofSubscriber, subscribes, h]

/-- The object has ended its call. -/
theorem closed (h : Fed pf events s) (more : List Event) (htracked : u.Tracked)
    (hcurrent : u.Current) (hcount : u.subscribes = (subscribes (events ++ more)).length)
    (hready : u.bus.registrations = [] ∨
      ∃ e, (subscribes (events ++ more)).getLast? = some e ∧ u.Holds pf e) (hu : u.calls = []) :
    Fed pf (events ++ more) { s with subscriber := u, calls := s.follow u } := by
  refine ⟨htracked, hcurrent, hcount, hready.imp_left fun hwatch => ⟨hwatch, hu⟩, ?_, ?_, ?_, ?_⟩
  · refine ⟨s.follow u, [], (List.append_nil _).symm, ?_, by simp, hu.symm⟩
    simp [follow_none hu]
  · intro c hc
    simp only [follow_none hu, List.mem_map] at hc
    rcases hc with ⟨c, hc, rfl⟩
    rcases h.made c hc with ⟨e', he', hissued⟩
    exact ⟨e', asker_append he' more, hissued⟩
  · intro c hc
    simp only [follow_none hu, List.mem_map] at hc
    rcases hc with ⟨c, hc, rfl⟩
    exact h.sent c hc
  · rw [follow_none hu, h.handled, ← stream_append h.made more, stream, stream, List.flatMap_map]
    rfl

/-- The object keeps its calls. -/
theorem same (h : Fed pf events s) (more : List Event) (htracked : u.Tracked)
    (hcurrent : u.Current) (hcount : u.subscribes = (subscribes (events ++ more)).length)
    (hready : ∃ e, (subscribes (events ++ more)).getLast? = some e ∧ u.Holds pf e)
    (hu : u.calls = s.subscriber.calls) :
    Fed pf (events ++ more) { s with subscriber := u, calls := s.follow u } := by
  rcases h.outstanding with ⟨past, last, hcalls, hpast, hlast, hobject⟩
  have hsame := follow_same hcalls hpast hobject hu
  rw [hsame]
  refine ⟨htracked, hcurrent, hcount, .inr hready, ⟨past, last, hcalls, hpast, hlast, ?_⟩, ?_,
    h.sent, ?_⟩
  · exact hobject.trans hu.symm
  · intro c hc
    rcases h.made c hc with ⟨e', he', hissued⟩
    exact ⟨e', asker_append he' more, hissued⟩
  · rw [stream_append h.made]
    exact h.handled

/-- The object makes a call. -/
theorem issued (h : Fed pf events s) (more : List Event) (htracked : u.Tracked)
    (hcurrent : u.Current) (hcount : u.subscribes = (subscribes (events ++ more)).length)
    {e' : Subscriber.Event} (hlast : (subscribes (events ++ more)).getLast? = some e')
    (hready : u.Holds pf e') {c : Subscription} (hissued : c.IssuedBy pf e')
    (hepoch : c.epoch = u.subscribes) (hnone : s.subscriber.calls = []) (hu : u.calls = [c]) :
    Fed pf (events ++ more) { s with subscriber := u, calls := s.follow u } := by
  rcases h.outstanding with ⟨past, last, hcalls, hpast, _, hobject⟩
  rw [hnone, List.map_eq_nil_iff] at hobject
  rw [hobject, List.append_nil] at hcalls
  have hclosed : ∀ c ∈ s.calls, c.outstanding = false := by rwa [hcalls]
  have hnew := follow_new hclosed hnone hu
  rw [hnew]
  refine ⟨htracked, hcurrent, hcount, .inr ⟨e', hlast, hready⟩,
    ⟨s.calls, [⟨c, true, [], 0⟩], rfl, hclosed, by simp, hu.symm⟩, ?_, ?_, ?_⟩
  · intro x hx
    rcases List.mem_append.mp hx with hx | hx
    · rcases h.made x hx with ⟨e', he', hold⟩
      exact ⟨e', asker_append he' more, hold⟩
    · obtain rfl := List.mem_singleton.mp hx
      refine ⟨e', ?_, hissued⟩
      rw [asker, hepoch, hcount, ← List.getLast?_eq_getElem?]
      exact hlast
  · intro x hx
    rcases List.mem_append.mp hx with hx | hx
    · exact h.sent x hx
    · obtain rfl := List.mem_singleton.mp hx
      exact Nat.le_refl 0
  · have hold := h.handled
    rw [← stream_append h.made more] at hold
    rw [stream, List.flatMap_append, ← stream, ← hold]
    simp [received]

/-- The object moves. -/
theorem subscriber (h : Fed pf events s) (hclean : s.subscriber.ExitsClean e')
    (hends : e'.endsCall = true) (hstep : s.subscriber.step pf e' = some u) :
    Fed pf (events ++ [.subscriber e']) { s with subscriber := u, calls := s.follow u } := by
  rcases h.tracked.step_clean hclean hends hstep with ⟨htracked, hcurrent, _⟩
  replace hcurrent := hcurrent h.current
  have hlist := subscribes_concat events e'
  have hsame (he : e'.isSubscribe = false) :
      subscribes (events ++ [.subscriber e']) = subscribes events := by
    rw [hlist, he]
    exact List.append_nil _
  have hcount (he : e'.isSubscribe = false) (hu : u.subscribes = s.subscriber.subscribes) :
      u.subscribes = (subscribes (events ++ [.subscriber e'])).length := by
    rw [hsame he, hu, h.count]
  have hwatched (he : e'.isSubscribe = false) (hwatch : s.subscriber.bus.registrations ≠ []) :
      ∃ e, (subscribes (events ++ [.subscriber e'])).getLast? = some e ∧
        s.subscriber.Holds pf e := by
    rw [hsame he]
    exact h.ready.resolve_left fun hnone => hwatch hnone.1
  cases h.tracked.moved hclean hends hstep with
  | subscribed he hu hcalls hready =>
      rw [he, if_pos rfl] at hlist
      refine h.closed _ htracked hcurrent ?_ (hready.imp_right fun hholds => ⟨e', ?_, hholds⟩)
        hcalls
      · rw [hlist, hu, h.count, List.length_append]
        rfl
      · rw [hlist, List.getLast?_concat]
  | cancelled hu hcalls hwatch =>
      exact h.closed _ htracked hcurrent (hcount rfl hu) (.inl hwatch) hcalls
  | issued hwatch hu hholds hnone hcalls hepoch =>
      rcases hwatched rfl hwatch with ⟨e, hlast, hready⟩
      rcases hholds e hready with ⟨hready', hissued⟩
      exact h.issued _ htracked hcurrent (hcount rfl hu) hlast hready' hissued
        (hepoch.trans hu.symm) hnone hcalls
  | kept hwatch hu hholds hcalls =>
      rcases hwatched rfl hwatch with ⟨e, hlast, hready⟩
      rcases hcalls with hcalls | hcalls
      · exact h.same _ htracked hcurrent (hcount rfl hu) ⟨e, hlast, hholds e hready⟩ hcalls
      · exact h.closed _ htracked hcurrent (hcount rfl hu) (.inr ⟨e, hlast, hholds e hready⟩) hcalls

/-- The call that is outstanding is the last, and the object's own. -/
theorem at_end (h : Fed pf events s) {i : Nat} {c : FeedCall} (hi : s.calls[i]? = some c)
    (hopen : c.outstanding = true) :
    ∃ past, s.calls = past ++ [c] ∧ i = past.length ∧ (∀ c ∈ past, c.outstanding = false) ∧
      s.subscriber.calls = [c.call] := by
  rcases h.outstanding with ⟨past, last, hcalls, hpast, _, hobject⟩
  have hle : past.length ≤ i := by
    by_contra hlt
    rw [hcalls, List.getElem?_append_left (Nat.lt_of_not_le hlt)] at hi
    have hclosed := hpast c (List.mem_of_getElem? hi)
    rw [hopen] at hclosed
    cases hclosed
  rw [hcalls, List.getElem?_append_right hle] at hi
  rcases h.tracked.call with ⟨hnone, _⟩ | ⟨call, hone, _⟩
  · rw [hnone, List.map_eq_nil_iff] at hobject
    simp [hobject] at hi
  · rw [hone] at hobject
    rcases List.map_eq_singleton_iff.mp hobject with ⟨c', rfl, rfl⟩
    rcases List.getElem?_eq_some_iff.mp hi with ⟨hlt, hget⟩
    have hzero : i - past.length = 0 := by simpa using hlt
    obtain rfl : c' = c := by simpa [hzero] using hget
    exact ⟨past, hcalls, by omega, hpast, hone⟩

/-- A call is changed, and stays outstanding if it was. -/
theorem outstanding_set (h : Fed pf events s) {i : Nat} {c c' : FeedCall}
    (hi : s.calls[i]? = some c) (hcall : c'.call = c.call)
    (hopen : c'.outstanding = c.outstanding) :
    ∃ past last, s.calls.set i c' = past ++ last ∧ (∀ c ∈ past, c.outstanding = false) ∧
      (∀ c ∈ last, c.outstanding = true) ∧ last.map FeedCall.call = s.subscriber.calls := by
  cases houtstanding : c.outstanding with
  | true =>
      rcases h.at_end hi houtstanding with ⟨past, hcalls, rfl, hpast, hobject⟩
      refine ⟨past, [c'], by simp [hcalls], hpast, ?_, by simp [hobject, hcall]⟩
      simp [hopen, houtstanding]
  | false =>
      rcases h.outstanding with ⟨past, last, hcalls, hpast, hlast, hobject⟩
      have hlt : i < past.length := by
        by_contra hle
        rw [hcalls, List.getElem?_append_right (Nat.le_of_not_lt hle)] at hi
        have hopened := hlast c (List.mem_of_getElem? hi)
        rw [houtstanding] at hopened
        cases hopened
      refine ⟨past.set i c', last, ?_, ?_, hlast, hobject⟩
      · rw [hcalls, List.set_append_left _ _ hlt]
      · intro x hx
        rcases List.mem_or_eq_of_mem_set hx with hx | rfl
        · exact hpast x hx
        · exact hopen.trans houtstanding

theorem subscribes_other {e : Event} (he : e.ofSubscriber = none) :
    subscribes (events ++ [e]) = subscribes events := by
  simp [subscribes, List.filterMap_append, he]

/-- The object stays as it is, and one call is changed. -/
theorem of_set (h : Fed pf events s) (e : Event) (he : e.ofSubscriber = none) {i : Nat}
    {c : FeedCall} (hi : s.calls[i]? = some c) (c' : FeedCall) (hcall : c'.call = c.call)
    (hopen : c'.outstanding = c.outstanding) (hsent : c'.taken ≤ c'.sent.length)
    {handled : List (Option Nat × JsonResponse)}
    (hhandled : handled = stream pf events (s.calls.set i c')) :
    Fed pf (events ++ [e]) { s with calls := s.calls.set i c', handled } := by
  have hsame : subscribes (events ++ [e]) = subscribes events := subscribes_other he
  have hmade : ∀ x ∈ s.calls.set i c', ∃ e, asker events x = some e ∧ x.call.IssuedBy pf e := by
    intro x hx
    rcases List.mem_or_eq_of_mem_set hx with hx | rfl
    · exact h.made x hx
    · rcases h.made c (List.mem_of_getElem? hi) with ⟨e', he', hissued⟩
      exact ⟨e', by rw [asker, hcall]; exact he', hcall ▸ hissued⟩
  refine ⟨h.tracked, h.current, h.count.trans (congrArg List.length hsame.symm), ?_,
    h.outstanding_set hi hcall hopen, ?_, ?_, ?_⟩
  · rw [hsame]
    exact h.ready
  · intro x hx
    rcases hmade x hx with ⟨e', he', hissued⟩
    exact ⟨e', asker_append he' [e], hissued⟩
  · intro x hx
    rcases List.mem_or_eq_of_mem_set hx with hx | rfl
    · exact h.sent x hx
    · exact hsent
  · rw [stream_append hmade]
    exact hhandled

/-- The service sends something to a call. -/
theorem send (h : Fed pf events s) {i : Nat} {c : FeedCall} (hi : s.calls[i]? = some c)
    (message : ResponseMessage) :
    Fed pf (events ++ [.send i message])
      { s with calls := s.calls.set i { c with sent := c.sent ++ [message] } } := by
  have hle := h.sent c (List.mem_of_getElem? hi)
  refine h.of_set (.send i message) rfl hi { c with sent := c.sent ++ [message] } rfl rfl ?_ ?_
  · exact hle.trans (List.prefix_append _ _).length_le
  · have hreceived : received pf { c with sent := c.sent ++ [message] } = received pf c := by
      simp [received, List.take_append_of_le_length hle]
    rw [h.handled]
    exact (stream_set hi hreceived rfl).symm

/-- A response comes back. -/
theorem deliver (h : Fed pf events s) {i : Nat} {c : FeedCall} (hi : s.calls[i]? = some c)
    (hopen : c.outstanding = true) {message : ResponseMessage}
    (hmessage : c.sent[c.taken]? = some message) :
    Fed pf (events ++ [.deliver i])
      { s.onCallResponse pf message with
        calls := s.calls.set i { c with taken := c.taken + 1 } } := by
  have hlt : c.taken < c.sent.length := (List.getElem?_eq_some_iff.mp hmessage).1
  refine h.of_set (.deliver i) rfl hi { c with taken := c.taken + 1 } rfl rfl hlt ?_
  rcases h.at_end hi hopen with ⟨past, hcalls, rfl, _, hobject⟩
  rcases h.ready.resolve_left fun hnone => by simp [hobject] at hnone with ⟨e', hlast, hholds⟩
  have hasker : asker events c = some e' := by
    have hepoch := (h.current c.call (by simp [hobject])).2.2
    rw [asker, hepoch, h.count, ← List.getLast?_eq_getElem?]
    exact hlast
  have hhandler : handlerOf e' = s.subscriber.sub.mResultHandler := by
    cases e' with
    | subscribe => exact hholds.2.2.2.1.symm
    | cancel | notify => cases hholds
  have hmore : received pf { c with taken := c.taken + 1 } =
      received pf c ++ [JsonResponse.handleLunaResponse pf pf.allSchema message] := by
    simp [received, List.take_add_one, hmessage]
  have hnext : asker events { c with taken := c.taken + 1 } = some e' := hasker
  simp only [onCallResponse, h.handled, hcalls, stream, List.set_append_right _ _ (Nat.le_refl _),
    Nat.sub_self, List.set_cons_zero, List.flatMap_append, List.flatMap_singleton, hmore, hasker,
    hnext, List.map_append, List.append_assoc, Option.bind_some, hhandler]
  rfl

theorem step (h : Fed pf events s) (hlet : s.LetsGo e)
    (hstep : Feed.step pf s e = some t) : Fed pf (events ++ [e]) t := by
  cases e with
  | subscriber e' =>
      rcases Option.map_eq_some_iff.mp hstep with ⟨u, hu, rfl⟩
      exact h.subscriber (hlet e' rfl).1 (hlet e' rfl).2 hu
  | send i message =>
      rcases Option.map_eq_some_iff.mp hstep with ⟨c, hi, rfl⟩
      exact h.send hi message
  | deliver i =>
      rcases Option.bind_eq_some_iff.mp hstep with ⟨c, hi, hite⟩
      split at hite
      · next hopen =>
          rcases Option.map_eq_some_iff.mp hite with ⟨message, hmessage, rfl⟩
          exact h.deliver hi hopen hmessage
      · cases hite

end Fed

/-- What a persistent subscription hands on: the responses to its calls, one call after the
other, each to the handler of the `subscribe` that the call was made for. -/
structure HandedOn (pf : Platform) (events : List Event) (s : Feed) : Prop where
  inOrder : s.handled = stream pf events s.calls
  issued : ∀ c ∈ s.calls, ∃ e, asker events c = some e ∧ c.call.IssuedBy pf e
  lastOnly : ∀ (i : Nat) c, s.calls[i]? = some c → c.outstanding = true → i + 1 = s.calls.length
  handler : ∀ x ∈ s.handled, x.1.isSome = true

/-- For every run in which the bus lets go of the watches and ends the calls it is asked to,
and no callback throws out of a registration. -/
theorem handedOn_of_run (pf : Platform) (events : List Event) (s : Feed)
    (h : run (step pf) init events = some s) (hlet : Meets (step pf) LetsGo init events) :
    HandedOn pf events s := by
  have hfed : Fed pf events s :=
    run_induction (fed_init pf) (fun _ _ _ _ _ hm he hn => hm.step he hn) hlet h
  refine ⟨hfed.handled, hfed.made, ?_, ?_⟩
  · intro i c hi hopen
    rcases hfed.at_end hi hopen with ⟨past, hcalls, rfl, _⟩
    simp [hcalls]
  · intro x hx
    rw [hfed.handled] at hx
    rcases List.mem_flatMap.mp hx with ⟨c, hc, hx⟩
    rcases List.mem_map.mp hx with ⟨r, _, rfl⟩
    rcases hfed.made c hc with ⟨e, he, hissued⟩
    rw [he]
    cases e with
    | subscribe => exact hissued.2.2.2
    | cancel | notify => cases hissued

/-- The service restarts, and another subscription with another handler follows. -/
theorem handedOn_of_run_restarted :
    let message : ResponseMessage := ⟨false, "text"⟩
    let events : List Event := [
      .subscriber (.subscribe (some 1) "luna://service/a" (.valid (.object [])) (some 3) true true
        .registered),
      .subscriber (.notify 0 true (some 5) true), .send 0 message, .deliver 0, .send 0 message,
      .subscriber (.notify 0 false none true), .subscriber (.notify 0 true (some 6) true),
      .send 1 message, .deliver 1,
      .subscriber (.subscribe (some 1) "luna://service/b" (.valid (.object [])) (some 4) true true
        .registered),
      .subscriber (.notify 1 true (some 7) true), .send 2 message, .deliver 2]
    ∃ s, run (step .ofEmptyObject) init events = some s ∧ HandedOn .ofEmptyObject events s ∧
      s.handled.map Prod.fst = [some 3, some 3, some 4] := by
  intro message events
  have hlet : Meets (step .ofEmptyObject) LetsGo init events := by
    intro pre e post m hsplit _ e' he'
    have hfair : ∀ e ∈ events.filterMap Event.ofSubscriber, e.Fair := by decide
    have hmem : e ∈ events := by simp [hsplit]
    rcases hfair e' (List.mem_filterMap.mpr ⟨e, hmem, he'⟩) with ⟨hok, hends, hreturns⟩
    exact ⟨⟨.inr hok, hreturns⟩, hends⟩
  have hrun : (run (step .ofEmptyObject) init events).map (fun s => s.handled.map Prod.fst) =
      some [some 3, some 3, some 4] := by decide +kernel
  rcases Option.map_eq_some_iff.mp hrun with ⟨s, hs, hhandled⟩
  exact ⟨s, hs, handedOn_of_run .ofEmptyObject events s hs hlet, hhandled⟩

end Feed

end LSHelpers
