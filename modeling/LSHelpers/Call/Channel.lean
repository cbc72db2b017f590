import LSHelpers.Call.Live
import LSHelpers.Response.JsonResponse

/-!
# A service point and what is sent to it

A `Channel` is a service point that makes calls together with what has been sent back to
each of them, whoever sends it. Messages for one call arrive in the order they were sent,
and the bus drops what belongs to a call that is cancelled.

A handler that uses the service point does so after its own start, so what it does follows
in the run. `makeCall` is one step here: that no reply comes before it has stored the token
is assumed, as is that `LSCallCancel` ends the call.
-/

namespace LSHelpers

open Transition

/-- A call that `makeCall` has made. -/
structure MadeCall where
  call : BusCall
  oneReply : Bool
deriving Repr, DecidableEq

/-- A call with what has been sent to it, and how much of that has arrived. -/
structure Link extends MadeCall where
  sent : List ResponseMessage
  taken : Nat
deriving Repr, DecidableEq

/-- `handled` has the responses that handlers were started with, with the address of the
`Call` object each handler was taken from. -/
structure Channel where
  caller : Caller
  links : List Link
  handled : List (Nat × JsonResponse)

def Link.responses (pf : Platform) (link : Link) : List JsonResponse :=
  link.sent.map (JsonResponse.handleLunaResponse pf pf.allSchema)

namespace Channel

variable (pf : Platform)

def init (handle : Option LSHandle) : Channel := ⟨.init handle, [], []⟩

inductive Event
  | makeCall (hasHandler oneReply : Bool) (outcome : Option LSMessageToken)
  | cancelCall (token : LSMessageToken)
  | destroy
  | send (more : Nat → List ResponseMessage)
  | deliver (i : Nat)

/-- What is made of a call that goes out. -/
def makes (s : Channel) (hasHandler oneReply : Bool) (token : LSMessageToken) : MadeCall :=
  ⟨⟨token, if hasHandler then some s.caller.nextAddress else none⟩, oneReply⟩

/-- The next message for a call reaches the service point. -/
def take (s : Channel) (link : Link) (message : ResponseMessage) : Option Channel :=
  if link.call ∈ s.caller.live then
    (s.caller.callStep (.reply link.call.token)).map fun caller =>
      { s with
        caller
        handled := s.handled ++ link.call.context.toList.map fun address =>
          (address, JsonResponse.handleLunaResponse pf pf.allSchema message) }
  else some s

def step (s : Channel) : Event → Option Channel
  | .makeCall hasHandler oneReply outcome =>
      (s.caller.callStep (.makeCall hasHandler oneReply outcome)).map fun caller =>
        { s with
          caller
          links := s.links ++ outcome.toList.map fun token =>
            ⟨s.makes hasHandler oneReply token, [], 0⟩ }
  | .cancelCall token =>
      (s.caller.callStep (.cancelCall token)).map fun caller => { s with caller }
  | .destroy => (s.caller.callStep .destroy).map fun caller => { s with caller }
  | .send more =>
      some { s with
        links := s.links.mapIdx fun i link => { link with sent := link.sent ++ more i } }
  | .deliver i =>
      s.links[i]?.bind fun link =>
        link.sent[link.taken]?.bind fun message =>
          (take pf s link message).map fun t =>
            { t with links := s.links.set i { link with taken := link.taken + 1 } }

/-! ## A step -/

/-- Every event with the ways it can go. -/
inductive Stepped (s : Channel) : Event → Channel → Prop
  | called {hasHandler oneReply : Bool} {token : LSMessageToken} {caller : Caller}
      (hcaller : s.caller.callStep (.makeCall hasHandler oneReply (some token)) = some caller) :
      Stepped s (.makeCall hasHandler oneReply (some token))
        { s with caller, links := s.links ++ [⟨s.makes hasHandler oneReply token, [], 0⟩] }
  | failed {hasHandler oneReply : Bool} : Stepped s (.makeCall hasHandler oneReply none) s
  | cancelCall {token : LSMessageToken} {caller : Caller}
      (hcaller : s.caller.callStep (.cancelCall token) = some caller) :
      Stepped s (.cancelCall token) { s with caller }
  | destroy {caller : Caller} (hcaller : s.caller.callStep .destroy = some caller) :
      Stepped s .destroy { s with caller }
  | send (more : Nat → List ResponseMessage) :
      Stepped s (.send more)
        { s with
          links := s.links.mapIdx fun i link => { link with sent := link.sent ++ more i } }
  | delivered {i : Nat} {link : Link} {message : ResponseMessage} {caller : Caller}
      (hi : s.links[i]? = some link) (hmessage : link.sent[link.taken]? = some message)
      (hlive : link.call ∈ s.caller.live)
      (hcaller : s.caller.callStep (.reply link.call.token) = some caller) :
      Stepped s (.deliver i)
        { s with
          caller
          links := s.links.set i { link with taken := link.taken + 1 }
          handled := s.handled ++ link.call.context.toList.map fun address =>
            (address, JsonResponse.handleLunaResponse pf pf.allSchema message) }
  | dropped {i : Nat} {link : Link} {message : ResponseMessage}
      (hi : s.links[i]? = some link) (hmessage : link.sent[link.taken]? = some message)
      (hdead : link.call ∉ s.caller.live) :
      Stepped s (.deliver i)
        { s with links := s.links.set i { link with taken := link.taken + 1 } }

theorem step_cases {s t : Channel} {e : Event} (h : step pf s e = some t) : Stepped pf s e t := by
  cases e with
  | makeCall hasHandler oneReply outcome =>
      rcases Option.map_eq_some_iff.mp h with ⟨caller, hcaller, rfl⟩
      cases outcome with
      | some token => exact .called hcaller
      | none =>
          obtain rfl := Caller.callStep_failed hcaller
          simpa using Stepped.failed
  | cancelCall token =>
      rcases Option.map_eq_some_iff.mp h with ⟨caller, hcaller, rfl⟩
      exact .cancelCall hcaller
  | destroy =>
      rcases Option.map_eq_some_iff.mp h with ⟨caller, hcaller, rfl⟩
      exact .destroy hcaller
  | send more =>
      obtain rfl := Option.some.inj h
      exact .send more
  | deliver i =>
      rcases Option.bind_eq_some_iff.mp h with ⟨link, hi, hbind⟩
      rcases Option.bind_eq_some_iff.mp hbind with ⟨message, hmessage, hmap⟩
      rcases Option.map_eq_some_iff.mp hmap with ⟨m, hm, rfl⟩
      unfold take at hm
      split at hm
      · rename_i hlive
        rcases Option.map_eq_some_iff.mp hm with ⟨caller, hcaller, rfl⟩
        exact .delivered hi hmessage hlive hcaller
      · rename_i hdead
        obtain rfl := Option.some.inj hm
        exact .dropped hi hmessage hdead

/-- Messages are sent, and nothing else happens. -/
structure Sends (s t : Channel) : Prop where
  caller : t.caller = s.caller
  handled : t.handled = s.handled
  length : t.links.length = s.links.length
  grows : ∀ (i : Nat) link link', s.links[i]? = some link → t.links[i]? = some link' →
    ∃ more, link' = { link with sent := link.sent ++ more }

theorem Sends.step {s t : Channel} (h : s.Sends t) :
    ∃ more, Channel.step pf s (.send more) = some t := by
  refine ⟨fun i => (t.links[i]?.elim [] Link.sent).drop (s.links[i]?.elim [] Link.sent).length, ?_⟩
  have hlinks : (s.links.mapIdx fun i link =>
      { link with
        sent := link.sent ++ (t.links[i]?.elim [] Link.sent).drop
          (s.links[i]?.elim [] Link.sent).length }) = t.links := by
    refine List.ext_getElem? fun i => ?_
    rw [List.getElem?_mapIdx]
    cases hi : s.links[i]? with
    | none =>
        have hlength := List.getElem?_eq_none_iff.mp hi
        rw [← h.length] at hlength
        exact (List.getElem?_eq_none hlength).symm
    | some link =>
        have hlt : i < t.links.length := by
          rw [h.length]
          exact (List.getElem?_eq_some_iff.mp hi).1
        have hi' := List.getElem?_eq_getElem hlt
        rcases h.grows i link _ hi hi' with ⟨more, heq⟩
        simp [hi', heq]
  simp only [Channel.step, hlinks, ← h.caller, ← h.handled]

end Channel

end LSHelpers
