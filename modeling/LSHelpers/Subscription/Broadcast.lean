import LSHelpers.Call.View
import LSHelpers.Subscription.FirstResponse
import LSHelpers.Transition.Part

/-!
# Subscribing from end to end

A service point that calls the methods of a provider, and the provider, which answers the
calls and posts to those who subscribed. The calls of others come to the provider as well,
and its threads, its main loop and the hub go their own ways. As in `Channel`, no reply comes
between the parts of `makeCall`, the hub keeps the order of the replies to a call, and
`LSCallCancel` ends a call.
-/

namespace LSHelpers

open Transition

/-- A call to the provider, with the message it has arrived as. -/
structure SubscribeCall extends MadeCall where
  message : Option Message
  taken : Nat
deriving Repr

structure Broadcast where
  caller : Caller
  provider : Provider
  calls : List SubscribeCall
  handled : List (Nat × JsonResponse)

/-- What a message is sent, as the bus carries it. -/
def Content.toMessage (pf : Platform) : Content → ResponseMessage
  | .response payload => ⟨false, pf.serialize (.valid payload)⟩
  | .post payload => ⟨false, payload⟩

namespace Broadcast

variable (pf : Platform)

def init (handle service : Option LSHandle) : Broadcast := ⟨.init handle, .init service, [], []⟩

inductive Event
  | makeCall (hasHandler oneReply : Bool) (outcome : Option LSMessageToken)
  | cancelCall (token : LSMessageToken)
  | destroy
  | arrive (i : Nat) (m : Message)
  | provider (e : Provider.Event)
  | deliver (i : Nat)

/-- What has been sent to a call so far. -/
def sent (s : Broadcast) (call : SubscribeCall) : List ResponseMessage :=
  call.message.elim [] fun m =>
    (Provider.wireTo m s.provider.wire).map (Content.toMessage pf)

def toLink (s : Broadcast) (call : SubscribeCall) : Link :=
  ⟨call.toMadeCall, s.sent pf call, call.taken⟩

/-- The calls, as the service point sees them. -/
def channel (s : Broadcast) : Channel := ⟨s.caller, s.calls.map (s.toLink pf), s.handled⟩

def step (s : Broadcast) : Event → Option Broadcast
  | .makeCall hasHandler oneReply outcome =>
      (s.caller.callStep (.makeCall hasHandler oneReply outcome)).map fun caller =>
        { s with
          caller
          calls := s.calls ++ outcome.toList.map fun token =>
            ⟨(s.channel pf).makes hasHandler oneReply token, none, 0⟩ }
  | .cancelCall token =>
      (s.caller.callStep (.cancelCall token)).map fun caller => { s with caller }
  | .destroy => (s.caller.callStep .destroy).map fun caller => { s with caller }
  | .arrive i m =>
      s.calls[i]?.bind fun call =>
        if call.message.isSome then none
        else
          (s.provider.step pf (.call m)).map fun provider =>
            { s with provider, calls := s.calls.set i { call with message := some m } }
  | .provider e => (s.provider.step pf e).map fun provider => { s with provider }
  | .deliver i =>
      s.calls[i]?.bind fun call =>
        (s.sent pf call)[call.taken]?.bind fun message =>
          (Channel.take pf (s.channel pf) (s.toLink pf call) message).map fun channel =>
            { s with
              caller := channel.caller
              calls := s.calls.set i { call with taken := call.taken + 1 }
              handled := channel.handled }

/-! ## A step -/

variable {pf} {s n : Broadcast} {e : Event}

/-- Every event with the ways it can go. -/
inductive Stepped (pf : Platform) (s : Broadcast) : Event → Broadcast → Prop
  | called {hasHandler oneReply : Bool} {token : LSMessageToken} {caller : Caller}
      (hcaller : s.caller.callStep (.makeCall hasHandler oneReply (some token)) = some caller) :
      Stepped pf s (.makeCall hasHandler oneReply (some token))
        { s with
          caller
          calls := s.calls ++ [⟨(s.channel pf).makes hasHandler oneReply token, none, 0⟩] }
  | failed {hasHandler oneReply : Bool} : Stepped pf s (.makeCall hasHandler oneReply none) s
  | cancelCall {token : LSMessageToken} {caller : Caller}
      (hcaller : s.caller.callStep (.cancelCall token) = some caller) :
      Stepped pf s (.cancelCall token) { s with caller }
  | destroy {caller : Caller} (hcaller : s.caller.callStep .destroy = some caller) :
      Stepped pf s .destroy { s with caller }
  | arrive {i : Nat} {m : Message} {call : SubscribeCall} {provider : Provider}
      (hi : s.calls[i]? = some call) (hmessage : call.message = none)
      (hprovider : s.provider.step pf (.call m) = some provider) :
      Stepped pf s (.arrive i m)
        { s with provider, calls := s.calls.set i { call with message := some m } }
  | provider {e : Provider.Event} {provider : Provider}
      (hprovider : s.provider.step pf e = some provider) :
      Stepped pf s (.provider e) { s with provider }
  | deliver {i : Nat} {call : SubscribeCall} {message : ResponseMessage} {channel : Channel}
      (hi : s.calls[i]? = some call) (hmessage : (s.sent pf call)[call.taken]? = some message)
      (htake : Channel.take pf (s.channel pf) (s.toLink pf call) message = some channel) :
      Stepped pf s (.deliver i)
        { s with
          caller := channel.caller
          calls := s.calls.set i { call with taken := call.taken + 1 }
          handled := channel.handled }

theorem step_cases (h : step pf s e = some n) : Stepped pf s e n := by
  cases e with
  | makeCall hasHandler oneReply outcome =>
      rcases Option.map_eq_some_iff.mp h with ⟨caller, hcaller, rfl⟩
      cases outcome with
      | some token => exact .called hcaller
      | none =>
          obtain rfl := Caller.callStep_failed hcaller
          simpa using Stepped.failed
  | cancelCall token =>
      rcases Option.map_eq_some_iff.mp h with ⟨caller, hcaller, rfl⟩
      exact .cancelCall hcaller
  | destroy =>
      rcases Option.map_eq_some_iff.mp h with ⟨caller, hcaller, rfl⟩
      exact .destroy hcaller
  | arrive i m =>
      rcases Option.bind_eq_some_iff.mp h with ⟨call, hi, hite⟩
      split at hite
      · cases hite
      · rename_i hmessage
        rcases Option.map_eq_some_iff.mp hite with ⟨provider, hprovider, rfl⟩
        exact .arrive hi (by simpa using hmessage) hprovider
  | provider e =>
      rcases Option.map_eq_some_iff.mp h with ⟨provider, hprovider, rfl⟩
      exact .provider hprovider
  | deliver i =>
      rcases Option.bind_eq_some_iff.mp h with ⟨call, hi, hbind⟩
      rcases Option.bind_eq_some_iff.mp hbind with ⟨message, hmessage, hmap⟩
      rcases Option.map_eq_some_iff.mp hmap with ⟨channel, htake, rfl⟩
      exact .deliver hi hmessage htake

/-! ## The provider -/

/-- The event as one of the provider. -/
def Event.ofProvider : Event → Option Provider.Event
  | .arrive _ m => some (.call m)
  | .provider e => some e
  | _ => none

end Broadcast

namespace Provider

/-- What has been sent stays sent. -/
theorem step_wire {pf : Platform} {s t : Provider} {e : Provider.Event}
    (h : Provider.step pf s e = some t) : s.wire <+: t.wire := by
  rcases step_cases h with ⟨_, _, _, _, rfl⟩ | ⟨_, _, _, _, rfl⟩ | ⟨_, _, _, rfl⟩ |
    ⟨_, _, _, _, rfl⟩ | ⟨_, _, _, _, _, rfl⟩
  all_goals first | exact List.prefix_rfl | exact List.prefix_append _ _

end Provider

namespace Broadcast

variable {pf : Platform} {s n : Broadcast} {e : Event}

/-! ## The subscriber -/

/-- The event gives up what was called under the token. -/
def Event.givesUp (token : LSMessageToken) : Event → Bool
  | .cancelCall t => t == token
  | .destroy => true
  | _ => false

/-- The responses that a handler was started with. -/
def handledAt (s : Broadcast) (address : Nat) : List JsonResponse :=
  (s.handled.filter fun x => x.1 == address).map Prod.snd

theorem channel_getElem? (s : Broadcast) (i : Nat) :
    (s.channel pf).links[i]? = s.calls[i]?.map (s.toLink pf) := List.getElem?_map

theorem sent_grows {call : SubscribeCall} (hwire : s.provider.wire <+: n.provider.wire) :
    s.sent pf call <+: n.sent pf call := by
  unfold sent
  cases call.message with
  | none => exact List.prefix_rfl
  | some m => exact ((hwire.filter _).map _).map _

/-- The provider's steps only send. -/
theorem sends_provider (hstep : step pf s e = some n) {e' : Provider.Event}
    (he : e.ofProvider = some e') : (s.channel pf).Sends (n.channel pf) := by
  have hgrows {call call' : SubscribeCall} (hcall : call'.toMadeCall = call.toMadeCall)
      (htaken : call'.taken = call.taken) (hsent : s.sent pf call <+: n.sent pf call') :
      ∃ more, n.toLink pf call' =
        { s.toLink pf call with sent := (s.toLink pf call).sent ++ more } := by
    rcases hsent with ⟨more, hmore⟩
    exact ⟨more, by simp [toLink, hcall, htaken, hmore]⟩
  cases step_cases hstep with
  | provider hprovider =>
      have hwire := Provider.step_wire hprovider
      refine ⟨rfl, rfl, by simp [channel], ?_⟩
      intro j link link' hj hj'
      rw [channel_getElem?] at hj hj'
      rcases Option.map_eq_some_iff.mp hj with ⟨old, hold, rfl⟩
      rcases Option.map_eq_some_iff.mp hj' with ⟨new, hnew, rfl⟩
      obtain rfl := Option.some.inj (hold.symm.trans hnew)
      exact hgrows rfl rfl (sent_grows hwire)
  | @arrive i m call provider hi hmessage hprovider =>
      have hwire := Provider.step_wire hprovider
      refine ⟨rfl, rfl, by simp [channel], ?_⟩
      intro j link link' hj hj'
      rw [channel_getElem?] at hj hj'
      rcases Option.map_eq_some_iff.mp hj with ⟨old, hold, rfl⟩
      rcases Option.map_eq_some_iff.mp hj' with ⟨new, hnew, rfl⟩
      rcases Channel.getElem?_set_cases hi hnew with ⟨rfl, rfl⟩ | ⟨_, hsame⟩
      · obtain rfl := Option.some.inj (hi.symm.trans hold)
        refine hgrows rfl rfl ?_
        simp [sent, hmessage]
      · obtain rfl := Option.some.inj (hsame.symm.trans hold)
        exact hgrows rfl rfl (sent_grows hwire)
  | _ => cases he

theorem channel_called {hasHandler oneReply : Bool} {token : LSMessageToken} {caller : Caller}
    (hcaller : s.caller.callStep (.makeCall hasHandler oneReply (some token)) = some caller) :
    Channel.step pf (s.channel pf) (.makeCall hasHandler oneReply (some token)) =
      some (channel pf { s with
        caller
        calls := s.calls ++ [⟨(s.channel pf).makes hasHandler oneReply token, none, 0⟩] }) := by
  simp only [Channel.step, channel, hcaller, Option.map_some, List.map_append]
  rfl

/-- The service point of the subscriber. -/
theorem isView_channel : Channel.IsView pf (step pf) (channel pf) Event.givesUp := by
  intro s e n hstep
  cases step_cases hstep with
  | called hcaller => exact .inr ⟨_, channel_called hcaller, fun _ => rfl⟩
  | failed => exact .inl ⟨rfl, fun _ => rfl⟩
  | @cancelCall token caller hcaller =>
      refine .inr ⟨.cancelCall token, ?_, fun _ => rfl⟩
      simp only [Channel.step, channel, hcaller, Option.map_some]
      rfl
  | destroy hcaller =>
      refine .inr ⟨.destroy, ?_, fun _ => rfl⟩
      simp only [Channel.step, channel, hcaller, Option.map_some]
      rfl
  | arrive _ _ _ | provider _ =>
      rcases (sends_provider hstep rfl).step pf with ⟨more, hsend⟩
      exact .inr ⟨.send more, hsend, fun _ => rfl⟩
  | @deliver i call message after hi hmessage htake =>
      refine .inr ⟨.deliver i, ?_, fun _ => rfl⟩
      have hlink : (s.channel pf).links[i]? = some (s.toLink pf call) := by
        simp [channel_getElem?, hi]
      have hnext : (s.toLink pf call).sent[(s.toLink pf call).taken]? = some message := hmessage
      have hlinks : (s.calls.set i { call with taken := call.taken + 1 }).map (s.toLink pf) =
          (s.channel pf).links.set i { s.toLink pf call with taken := call.taken + 1 } := by
        rw [List.map_set]
        rfl
      simp only [Channel.step, hlink, Option.bind_some, hnext, htake, Option.map_some]
      exact congrArg (fun links => some (Channel.mk after.caller links after.handled)) hlinks.symm

/-! ## What subscribers receive -/

section

variable {handle service : Option LSHandle} {events : List Event}

theorem served_of_run (h : run (step pf) (init handle service) events = some s) :
    (s.channel pf).Served pf :=
  isView_channel.served_of_run (Channel.served_init handle) h

end

end Broadcast

end LSHelpers
