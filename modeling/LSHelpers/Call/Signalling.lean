import LSHelpers.Call.View
import LSHelpers.Method.Signals
import LSHelpers.Response.Signal

/-!
# Signals from end to end

A service point that subscribes to signals among its other calls, and a hub that goes by the
URIs: it answers an addmatch, and when it has agreed it passes on what is sent under the names
it was asked for, whoever sends it. It may take its time with that, and what it does for calls
of other URIs is left open. It finds in the parameters of an addmatch what was put there.

As in `Channel`, `makeCall` is one step, what is sent to a call arrives in order, and
`LSCallCancel` ends a call.
-/

namespace LSHelpers

open Transition

def addmatchUri : String := "luna://com.webos.service.bus/signal/addmatch"

/-- The parameters of `subscribeToSignal`. -/
def addmatchParams (category methodName : String) : JValue :=
  .valid (.object [("category", .string category), ("method", .string methodName)])

/-- The names the hub finds in the parameters of an addmatch. -/
def matchNames (params : JValue) : Option (String × String) :=
  match params.members.lookup "category", params.members.lookup "method" with
  | some (.string category), some (.string method) => some (category, method)
  | _, _ => none

/-- What the hub gets from the bus, and what it sends to the calls of the service point. -/
inductive HubEvent
  | call (i : Nat) (uri : String) (params : JValue)
  | signal (signal : SentSignal)
  | send (i : Nat) (message : ResponseMessage)

/-! ## The hub -/

/-- What a call is to the hub. A match has the payloads that are still to be passed on. -/
inductive Topic
  | other
  | asked (params : JValue)
  | matched (names : String × String) (waiting : List String)
  | refused

namespace Topic

def ofCall (uri : String) (params : JValue) : Topic :=
  if uri = addmatchUri then .asked params else .other

/-- A signal is for the matches with the names of its URI. -/
def hears (signal : SentSignal) : Topic → Topic
  | .matched names waiting =>
      .matched names
        (waiting ++ if splitUri signal.uri = some names then [signal.payload] else [])
  | topic => topic

/-- An addmatch is answered once, and the answer says whether there is a match from now on. A
match is sent the signals in the order the hub got them. -/
def sends (pf : Platform) (message : ResponseMessage) : Topic → Option Topic
  | .other => some .other
  | .asked params =>
      some (if SignalCall.subscribeFailed pf message then .refused
        else (matchNames params).elim .refused fun names => .matched names [])
  | .matched names (payload :: waiting) =>
      if message = ⟨false, payload⟩ then some (.matched names waiting) else none
  | .matched _ [] | .refused => none

/-- What has not been passed on yet. -/
def toPass : Topic → List ResponseMessage
  | .matched _ waiting => waiting.map fun payload => ⟨false, payload⟩
  | .other | .asked _ | .refused => []

end Topic

/-- What the hub gets and sends is as the topics of the calls say. -/
structure GoesByUri {σ : Type*} (pf : Platform) (hub : σ → HubEvent → Option σ)
    (topic : σ → Nat → Topic) : Prop where
  call : ∀ h i uri params h', hub h (.call i uri params) = some h' →
    topic h' = Function.update (topic h) i (.ofCall uri params)
  signal : ∀ h signal h', hub h (.signal signal) = some h' →
    ∀ i, topic h' i = (topic h i).hears signal
  send : ∀ h i message h', hub h (.send i message) = some h' →
    ∃ t, (topic h i).sends pf message = some t ∧ topic h' = Function.update (topic h) i t

/-- The hub that keeps the topics and nothing else. -/
def topicHub (pf : Platform) (topics : Nat → Topic) : HubEvent → Option (Nat → Topic)
  | .call i uri params => some (Function.update topics i (.ofCall uri params))
  | .signal signal => some fun i => (topics i).hears signal
  | .send i message => ((topics i).sends pf message).map (Function.update topics i)

theorem goesByUri_topicHub (pf : Platform) : GoesByUri pf (topicHub pf) id where
  call _ _ _ _ _ h := (Option.some.inj h).symm
  signal _ _ _ h _ := congrFun (Option.some.inj h).symm _
  send _ _ _ _ h := by
    rcases Option.map_eq_some_iff.mp h with ⟨t, ht, rfl⟩
    exact ⟨t, ht, rfl⟩

/-! ## The system -/

structure Signalling (σ : Type*) extends Channel where
  hub : σ

namespace Signalling

/-- `hubSends` is a message of the hub for one of the calls. -/
inductive Event
  | subscribeToSignal (category methodName : String) (outcome : Option LSMessageToken)
  | makeCall (uri : String) (params : JValue) (hasHandler oneReply : Bool)
      (outcome : Option LSMessageToken)
  | cancelCall (token : LSMessageToken)
  | destroy
  | sendSignal (mHandle : Option LSHandle) (category method : String) (payload : JValue)
      (send : Option String)
  | hubSends (i : Nat) (message : ResponseMessage)
  | deliver (i : Nat)

/-- The signal the bus has got, unless sending it threw. -/
def Event.signal (stringify : JValue → String) : Event → Option SentSignal
  | .sendSignal mHandle category method payload send =>
      match LSHelpers.sendSignal stringify mHandle category method payload send with
      | (.ok (), signal) => signal
      | (.error _, _) => none
  | _ => none

/-- The event as one of the service point. -/
def Event.command : Event → Channel.Event
  | .subscribeToSignal _ _ outcome => .makeCall true false outcome
  | .makeCall _ _ hasHandler oneReply outcome => .makeCall hasHandler oneReply outcome
  | .cancelCall token => .cancelCall token
  | .destroy => .destroy
  | .sendSignal _ _ _ _ _ => .send fun _ => []
  | .hubSends i message => .send fun j => if j = i then [message] else []
  | .deliver i => .deliver i

section

variable {σ : Type*} (pf : Platform) (stringify : JValue → String)
  (hub : σ → HubEvent → Option σ)

def init (handle : Option LSHandle) (h : σ) : Signalling σ := ⟨.init handle, h⟩

/-- The event as one of the hub. -/
def hubEvent (s : Signalling σ) : Event → Option HubEvent
  | .subscribeToSignal category methodName outcome =>
      outcome.map fun _ =>
        .call s.links.length addmatchUri (addmatchParams category methodName)
  | .makeCall uri params _ _ outcome => outcome.map fun _ => .call s.links.length uri params
  | .sendSignal mHandle category method payload send =>
      (Event.signal stringify (.sendSignal mHandle category method payload send)).map .signal
  | .hubSends i message => some (.send i message)
  | .cancelCall _ | .destroy | .deliver _ => none

def step (s : Signalling σ) (e : Event) : Option (Signalling σ) :=
  (Channel.step pf s.toChannel e.command).bind fun channel =>
    ((s.hubEvent stringify e).elim (some s.hub) (hub s.hub)).map fun h => ⟨channel, h⟩

/-- What the handler that was given to `subscribeToSignal` has received. -/
def heardAt (s : Signalling σ) (address : Nat) : List JsonResponse :=
  ((s.handledAt address).foldl SignalCall.wrapperFunc SignalCall.start).delivered

/-! ## What is to be heard -/

/-- The event gives up what was called under the token. -/
def Event.givesUp (token : LSMessageToken) : Event → Bool
  | .cancelCall t => t == token
  | .destroy => true
  | _ => false

/-- What the hub sends to the call `i`. -/
def Event.messageTo (i : Nat) : Event → Option ResponseMessage
  | .hubSends j message => if j = i then some message else none
  | _ => none

/-- A signal that is sent under the names, without an exception. -/
def Event.signalUnder (names : String × String) : Event → List ResponseMessage
  | .sendSignal (some _) category method payload none =>
      if checkNames category method = .ok () ∧ (category, method) = names then
        [⟨false, stringify payload⟩]
      else []
  | _ => []

/-- The messages for the call `i`: the hub's answer to its addmatch, and if the hub has agreed
the signals that are sent after that. -/
def messagesFor (i : Nat) (names : String × String) : List Event → List ResponseMessage
  | [] => []
  | e :: events =>
      match e.messageTo i with
      | none => messagesFor i names events
      | some reply =>
          reply :: if SignalCall.subscribeFailed pf reply then []
            else events.flatMap (Event.signalUnder stringify names)

/-- What a subscription hears of the messages that have come back: the signals when the hub
has agreed, and the answer when it is a hub error or no JSON. -/
inductive Hears : List ResponseMessage → List JsonResponse → Prop
  | nothing : Hears [] []
  | signals {reply : ResponseMessage} {signals : List ResponseMessage}
      (hagreed : SignalCall.subscribeFailed pf reply = false) :
      Hears (reply :: signals) (signals.map (JsonResponse.handleLunaResponse pf pf.allSchema))
  | error {reply : ResponseMessage}
      (herror : reply.isHubError = true ∨
        (pf.fromString reply.getPayload pf.allSchema).isValid = false) :
      Hears [reply] [JsonResponse.handleLunaResponse pf pf.allSchema reply]
  -- the wrapper looks at `isSuccess`, which is true of every answer that parses
  | swallowed {reply : ResponseMessage} (hfalse : SignalCall.returnsFalse pf reply = true)
      (hhub : reply.isHubError = false)
      (hvalid : (pf.fromString reply.getPayload pf.allSchema).isValid = true) :
      Hears [reply] []

end

variable {σ : Type*} {pf : Platform} {stringify : JValue → String}
  {hub : σ → HubEvent → Option σ} {topic : σ → Nat → Topic} {s n : Signalling σ}

/-! ## The hub and one call -/

/-- The hub goes by the URI, and by that the signals it passes on are those of the names. -/
theorem signalUnder_eq (stringify : JValue → String) (names : String × String) (e : Event) :
    e.signalUnder stringify names =
      (((e.signal stringify).filter fun signal => splitUri signal.uri = some names).map
        fun signal => (⟨false, signal.payload⟩ : ResponseMessage)).toList := by
  cases e with
  | sendSignal mHandle category method payload send =>
      cases mHandle with
      | none => rfl
      | some handle =>
          cases hnames : checkNames category method with
          | error _ =>
              cases send <;>
                simp [Event.signal, LSHelpers.sendSignal, Event.signalUnder, hnames]
          | ok =>
              have hsplit := splitUri_signalUri hnames
              cases send with
              | some _ => simp [Event.signal, LSHelpers.sendSignal, Event.signalUnder, hnames]
              | none =>
                  by_cases hsame : (category, method) = names <;>
                    simp [Event.signal, LSHelpers.sendSignal, Event.signalUnder, hnames, hsplit,
                      hsame, Option.filter]
  | _ => rfl

/-- The topic is that of a subscription to the names. -/
def IsFor (names : String × String) : Topic → Prop
  | .asked params => matchNames params = some names
  | .matched names' _ => names' = names
  | .refused => True
  | .other => False

/-- What is to be sent from now on to the subscription `i`. -/
def toSend (pf : Platform) (stringify : JValue → String) (i : Nat) (names : String × String)
    (t : Topic) (events : List Event) : List ResponseMessage :=
  match t with
  | .asked _ => messagesFor pf stringify i names events
  | .matched _ _ => t.toPass ++ events.flatMap (Event.signalUnder stringify names)
  | .other | .refused => []

theorem toSend_nil (i : Nat) (names : String × String) (t : Topic) :
    toSend pf stringify i names t [] = t.toPass := by
  cases t <;> simp [toSend, messagesFor, Topic.toPass]

/-- While nothing is sent to the call, a match takes in the signals. -/
theorem toSend_quiet {i : Nat} {names : String × String} {t : Topic} {e : Event}
    (hfor : IsFor names t) (hmessage : e.messageTo i = none) (events : List Event) :
    IsFor names ((e.signal stringify).elim t fun signal => t.hears signal) ∧
      toSend pf stringify i names ((e.signal stringify).elim t fun signal => t.hears signal)
        events = toSend pf stringify i names t (e :: events) := by
  cases t with
  | other => cases hfor
  | asked params =>
      cases e.signal stringify with
      | none => exact ⟨hfor, by simp [toSend, messagesFor, hmessage]⟩
      | some signal => exact ⟨hfor, by simp [toSend, messagesFor, hmessage, Topic.hears]⟩
  | refused =>
      cases e.signal stringify with
      | none => exact ⟨trivial, rfl⟩
      | some signal => exact ⟨trivial, rfl⟩
  | matched names' waiting =>
      obtain rfl : names' = names := hfor
      have hunder := signalUnder_eq stringify names' e
      cases hsignal : e.signal stringify with
      | none =>
          rw [hsignal] at hunder
          refine ⟨rfl, ?_⟩
          simp only [Option.elim_none, toSend, List.flatMap_cons, hunder]
          rfl
      | some signal =>
          rw [hsignal] at hunder
          refine ⟨rfl, ?_⟩
          simp only [Option.elim_some, toSend, Topic.hears, Topic.toPass, List.flatMap_cons, hunder]
          by_cases hnames : splitUri signal.uri = some names' <;> simp [hnames, Option.filter]

/-- What the hub sends is what was to be sent next. -/
theorem toSend_sends {i : Nat} {names : String × String} {t t' : Topic} {message : ResponseMessage}
    (hfor : IsFor names t) (hsends : t.sends pf message = some t') (events : List Event) :
    IsFor names t' ∧ message :: toSend pf stringify i names t' events =
      toSend pf stringify i names t (.hubSends i message :: events) := by
  have hmessage : (Event.hubSends i message).messageTo i = some message := if_pos rfl
  cases t with
  | other => cases hfor
  | refused => cases hsends
  | asked params =>
      obtain rfl := Option.some.inj hsends
      have hparams : matchNames params = some names := hfor
      cases hfailed : SignalCall.subscribeFailed pf message with
      | true => exact ⟨trivial, by simp [toSend, messagesFor, hmessage, hfailed]⟩
      | false =>
          simp only [hparams, Bool.false_eq_true, if_false, Option.elim_some]
          exact ⟨rfl, by simp [toSend, messagesFor, hmessage, hfailed, Topic.toPass]⟩
  | matched names' waiting =>
      cases waiting with
      | nil => cases hsends
      | cons payload waiting =>
          simp only [Topic.sends, Option.ite_none_right_eq_some, Option.some.injEq] at hsends
          obtain ⟨rfl, rfl⟩ := hsends
          exact ⟨hfor, rfl⟩

/-- The hub's part of a step. -/
theorem hub_step (hgoes : GoesByUri pf hub topic) {e : Event} {h : σ}
    (hhub : (s.hubEvent stringify e).elim (some s.hub) (hub s.hub) = some h) {i : Nat}
    (hi : i < s.links.length) {names : String × String} (hfor : IsFor names (topic s.hub i))
    (events : List Event) :
    IsFor names (topic h i) ∧
      (e.messageTo i).toList ++ toSend pf stringify i names (topic h i) events =
        toSend pf stringify i names (topic s.hub i) (e :: events) := by
  have hquiet (hmessage : e.messageTo i = none)
      (htopic : topic h i =
        (e.signal stringify).elim (topic s.hub i) fun signal => (topic s.hub i).hears signal) :
      IsFor names (topic h i) ∧
        (e.messageTo i).toList ++ toSend pf stringify i names (topic h i) events =
          toSend pf stringify i names (topic s.hub i) (e :: events) := by
    rw [hmessage, htopic]
    exact toSend_quiet hfor hmessage events
  -- a call that is new to the hub has a number of its own
  have hcall {uri : String} {params : JValue}
      (hnew : hub s.hub (.call s.links.length uri params) = some h) :
      topic h i = topic s.hub i := by
    rw [hgoes.call _ _ _ _ _ hnew, Function.update_of_ne (Nat.ne_of_lt hi)]
  cases e with
  | subscribeToSignal category methodName outcome =>
      cases outcome with
      | none =>
          obtain rfl := Option.some.inj hhub
          exact hquiet rfl rfl
      | some token => exact hquiet rfl (hcall hhub)
  | makeCall uri params hasHandler oneReply outcome =>
      cases outcome with
      | none =>
          obtain rfl := Option.some.inj hhub
          exact hquiet rfl rfl
      | some token => exact hquiet rfl (hcall hhub)
  | cancelCall _ | destroy | deliver _ =>
      obtain rfl := Option.some.inj hhub
      exact hquiet rfl rfl
  | sendSignal mHandle category method payload send =>
      cases hsignal : Event.signal stringify (.sendSignal mHandle category method payload send) with
      | none =>
          rw [hubEvent, hsignal] at hhub
          obtain rfl := Option.some.inj hhub
          refine hquiet rfl ?_
          rw [hsignal]
          rfl
      | some signal =>
          rw [hubEvent, hsignal] at hhub
          refine hquiet rfl ?_
          rw [hsignal]
          exact hgoes.signal _ _ _ hhub i
  | hubSends j message =>
      rcases hgoes.send _ _ _ _ hhub with ⟨t, ht, htopic⟩
      by_cases hj : j = i
      · subst hj
        rw [htopic, Function.update_self, Event.messageTo, if_pos rfl]
        exact toSend_sends hfor ht events
      · refine hquiet (if_neg hj) ?_
        rw [htopic, Function.update_of_ne (Ne.symm hj)]
        rfl

theorem sentTo_command (i : Nat) (e : Event) :
    e.command.sentTo i = (e.messageTo i).toList := by
  cases e with
  | hubSends j message =>
      by_cases hj : j = i
      · simp [Event.command, Channel.Event.sentTo, Event.messageTo, hj]
      · simp [Event.command, Channel.Event.sentTo, Event.messageTo, hj, Ne.symm hj]
  | _ => rfl

theorem step_cases {e : Event} (hstep : step pf stringify hub s e = some n) :
    Channel.step pf s.toChannel e.command = some n.toChannel ∧
      (s.hubEvent stringify e).elim (some s.hub) (hub s.hub) = some n.hub := by
  rcases Option.bind_eq_some_iff.mp hstep with ⟨channel, hchannel, hmap⟩
  rcases Option.map_eq_some_iff.mp hmap with ⟨h, hhub, rfl⟩
  exact ⟨hchannel, hhub⟩

theorem step_call (hgoes : GoesByUri pf hub topic) {e : Event}
    (hstep : step pf stringify hub s e = some n) {i : Nat} {link : Link}
    (hi : s.links[i]? = some link) {names : String × String} (hfor : IsFor names (topic s.hub i)) :
    ∃ link', n.links[i]? = some link' ∧ link'.toMadeCall = link.toMadeCall ∧
      IsFor names (topic n.hub i) ∧ ∀ events,
        link'.sent ++ toSend pf stringify i names (topic n.hub i) events =
          link.sent ++ toSend pf stringify i names (topic s.hub i) (e :: events) := by
  rcases step_cases hstep with ⟨hchannel, hhub⟩
  rcases Channel.step_link hchannel hi with ⟨link', hi', hmade, hsent⟩
  have hmoved := hub_step hgoes hhub (List.getElem?_eq_some_iff.mp hi).1 hfor
  refine ⟨link', hi', hmade, (hmoved []).1, fun events => ?_⟩
  rw [hsent, sentTo_command, List.append_assoc, (hmoved events).2]

theorem run_call (hgoes : GoesByUri pf hub topic) {events : List Event}
    (hrun : run (step pf stringify hub) s events = some n) {i : Nat} {link : Link}
    (hi : s.links[i]? = some link) {names : String × String} (hfor : IsFor names (topic s.hub i)) :
    ∃ link', n.links[i]? = some link' ∧ link'.toMadeCall = link.toMadeCall ∧
      link'.sent ++ (topic n.hub i).toPass =
        link.sent ++ toSend pf stringify i names (topic s.hub i) events := by
  induction events generalizing s link with
  | nil =>
      obtain rfl := Option.some.inj hrun
      exact ⟨link, hi, rfl, by rw [toSend_nil]⟩
  | cons e events ih =>
      rcases run_cons_iff.mp hrun with ⟨m, hm, hn⟩
      rcases step_call hgoes hm hi hfor with ⟨mid, hmid, hmade, hfor', hsent⟩
      rcases ih hn hmid hfor' with ⟨link', hi', hmade', hsent'⟩
      exact ⟨link', hi', hmade'.trans hmade, hsent'.trans (hsent events)⟩

/-! ## The wrapper -/

/-- An answer that says that subscribing failed is the only message. -/
def EndsWithFailure (pf : Platform) : List ResponseMessage → Prop
  | [] => True
  | reply :: signals => SignalCall.subscribeFailed pf reply = true → signals = []

theorem endsWithFailure_messagesFor (i : Nat) (names : String × String) (events : List Event) :
    EndsWithFailure pf (messagesFor pf stringify i names events) := by
  induction events with
  | nil => trivial
  | cons e events ih =>
      rw [messagesFor]
      cases e.messageTo i with
      | none => exact ih
      | some reply =>
          intro hfailed
          simp [hfailed]

theorem EndsWithFailure.cut {msgs msgs' : List ResponseMessage}
    (h : EndsWithFailure pf msgs) (hcut : msgs' <+: msgs) : EndsWithFailure pf msgs' := by
  rcases hcut with ⟨rest, rfl⟩
  cases msgs' with
  | nil => trivial
  | cons reply signals => exact fun hfailed => (List.append_eq_nil_iff.mp (h hfailed)).1

theorem EndsWithFailure.hears {msgs : List ResponseMessage} (h : EndsWithFailure pf msgs) :
    Hears pf msgs (SignalCall.receiveAll pf SignalCall.start msgs).delivered := by
  cases msgs with
  | nil => exact .nothing
  | cons reply signals =>
      rw [SignalCall.start, SignalCall.receiveAll_cons]
      cases haccepted : SignalCall.accepted pf reply with
      | false =>
          obtain rfl : signals = [] := h (by simp [SignalCall.subscribeFailed, haccepted])
          rw [SignalCall.receive_not_accepted pf [] haccepted]
          refine .error ?_
          simpa [SignalCall.accepted, or_iff_not_imp_left] using haccepted
      | true =>
          rw [SignalCall.receive_accepted pf [] haccepted, SignalCall.receiveAll_of_lowered]
          cases hfalse : SignalCall.returnsFalse pf reply with
          | false => exact .signals (by simp [SignalCall.subscribeFailed, haccepted, hfalse])
          | true =>
              obtain rfl : signals = [] := h (by simp [SignalCall.subscribeFailed, hfalse])
              rw [SignalCall.accepted, Bool.and_eq_true, Bool.not_eq_true'] at haccepted
              exact .swallowed hfalse haccepted.1 haccepted.2

/-- What a handler hears of the messages its wrapper was started with. -/
theorem hears_heardAt {a : Nat} {msgs : List ResponseMessage} (h : EndsWithFailure pf msgs)
    (hhandled : s.handledAt a = msgs.map (JsonResponse.handleLunaResponse pf pf.allSchema)) :
    Hears pf msgs (s.heardAt a) := by
  have hheard : s.heardAt a = (SignalCall.receiveAll pf SignalCall.start msgs).delivered := by
    rw [heardAt, hhandled, List.foldl_map]
    rfl
  exact hheard ▸ h.hears

/-! ## The service point -/

theorem isView_channel :
    Channel.IsView pf (step pf stringify hub) toChannel Event.givesUp := by
  intro s e n hstep
  refine .inr ⟨e.command, (step_cases hstep).1, fun token => ?_⟩
  cases e <;> rfl

theorem served_of_run {handle : Option LSHandle} {h : σ} {events : List Event}
    (hrun : run (step pf stringify hub) (init handle h) events = some s) :
    s.toChannel.Served pf :=
  isView_channel.served_of_run (Channel.served_init handle) hrun

/-- A call to `subscribeToSignal`, and what the hub sends to it. -/
theorem subscribed_link (hgoes : GoesByUri pf hub topic) {category methodName : String}
    {token : LSMessageToken} {events : List Event} (hn : step pf stringify hub s
      (.subscribeToSignal category methodName (some token)) = some n) {t : Signalling σ}
    (ht : run (step pf stringify hub) n events = some t) :
    ∃ link, t.links[s.links.length]? = some link ∧
      link.toMadeCall = s.makes true false token ∧
      link.sent ++ (topic t.hub s.links.length).toPass =
        messagesFor pf stringify s.links.length (category, methodName) events := by
  rcases step_cases hn with ⟨hchannel, hhub⟩
  have htopic : topic n.hub s.links.length = .asked (addmatchParams category methodName) := by
    rw [hgoes.call _ _ _ _ _ hhub, Function.update_self]
    rfl
  have hfor : IsFor (category, methodName) (topic n.hub s.links.length) := by
    rw [htopic]
    rfl
  have hlink : n.links[s.links.length]? = some ⟨s.makes true false token, [], 0⟩ := by
    rcases Option.map_eq_some_iff.mp hchannel with ⟨caller, _, hnew⟩
    rw [← hnew]
    exact List.getElem?_concat_length
  rcases run_call hgoes ht hlink hfor with ⟨link, hi, hmade, hsent⟩
  refine ⟨link, hi, hmade, hsent.trans ?_⟩
  rw [htopic]
  rfl

/-- Whatever happens to a subscription, its handler hears of the signals that are sent under
its names after the hub has agreed, in order and without a gap, or of the error. -/
theorem heard_of_run (pf : Platform) (stringify : JValue → String)
    (hub : σ → HubEvent → Option σ) (topic : σ → Nat → Topic) (hgoes : GoesByUri pf hub topic)
    (handle : Option LSHandle) (h : σ) (pre post : List Event) (m s : Signalling σ)
    (category methodName : String) (token : LSMessageToken)
    (hm : run (step pf stringify hub) (init handle h) pre = some m)
    (hs : run (step pf stringify hub) m
      (.subscribeToSignal category methodName (some token) :: post) = some s) :
    ∃ msgs, msgs <+: messagesFor pf stringify m.links.length (category, methodName) post ∧
      Hears pf msgs (s.heardAt m.caller.nextAddress) := by
  rcases run_cons_iff.mp hs with ⟨n, hn, hpost⟩
  rcases subscribed_link hgoes hn hpost with ⟨link, hi, hcall, hsent⟩
  have hserved := isView_channel.served_of_run (served_of_run hm) hs
  have hstream := hserved.streams _ link token m.caller.nextAddress hi
    (congrArg MadeCall.call hcall)
  have hcut : link.sent.take (s.handledAt m.caller.nextAddress).length <+:
      messagesFor pf stringify m.links.length (category, methodName) post :=
    (List.take_prefix _ _).trans ⟨_, hsent⟩
  refine ⟨_, hcut, hears_heardAt ((endsWithFailure_messagesFor _ _ _).cut hcut) ?_⟩
  rw [List.map_take]
  exact List.prefix_iff_eq_take.mp hstream.inOrder

/-- A signal under other names, and one that comes too late. -/
theorem heard_of_run_cancelled :
    let send (category : String) : Event :=
      .sendSignal (some 1) category "m" (.valid (.object [])) none
    let message : ResponseMessage := ⟨false, "\x7b\x7d"⟩
    let post : List Event := [.hubSends 0 message, send "/a", send "/b", .hubSends 0 message,
      .deliver 0, .deliver 0, send "/a", .cancelCall 7, .hubSends 0 message, .deliver 0]
    ∃ s msgs, run (step .ofEmptyObject (fun _ => "\x7b\x7d") (topicHub .ofEmptyObject))
        (init (some 2) fun _ => .other) (.subscribeToSignal "/a" "m" (some 7) :: post) = some s ∧
      (s.heardAt 0).length = 1 ∧
      msgs <+: messagesFor .ofEmptyObject (fun _ => "\x7b\x7d") 0 ("/a", "m") post ∧
      Hears .ofEmptyObject msgs (s.heardAt 0) := by
  intro send message post
  have hrun : (run (step .ofEmptyObject (fun _ => "\x7b\x7d") (topicHub .ofEmptyObject))
      (init (some 2) fun _ => .other) (.subscribeToSignal "/a" "m" (some 7) :: post)).map
        (fun s => (s.heardAt 0).length) = some 1 := by decide +kernel
  rcases Option.map_eq_some_iff.mp hrun with ⟨s, hs, hlength⟩
  rcases heard_of_run .ofEmptyObject (fun _ => "\x7b\x7d") _ id (goesByUri_topicHub _) (some 2)
    (fun _ => .other) [] post _ s "/a" "m" 7 rfl hs with ⟨msgs, hcut, hhears⟩
  exact ⟨s, msgs, hs, hlength, hcut, hhears⟩

/-- A subscription that is kept hears of all that has come back. -/
theorem signalled_of_run (pf : Platform) (stringify : JValue → String)
    (hub : σ → HubEvent → Option σ) (topic : σ → Nat → Topic) (hgoes : GoesByUri pf hub topic)
    (handle : Option LSHandle) (h : σ) (pre post : List Event) (m s : Signalling σ)
    (category methodName : String) (token : LSMessageToken)
    (hm : run (step pf stringify hub) (init handle h) pre = some m)
    (hs : run (step pf stringify hub) m
      (.subscribeToSignal category methodName (some token) :: post) = some s)
    (hkept : ∀ e ∈ post, e.givesUp token = false) :
    ∃ link, s.links[m.links.length]? = some link ∧
      link.sent ++ (topic s.hub m.links.length).toPass =
        messagesFor pf stringify m.links.length (category, methodName) post ∧
      Hears pf (link.sent.take link.taken) (s.heardAt m.caller.nextAddress) := by
  rcases run_cons_iff.mp hs with ⟨n, hn, hpost⟩
  rcases subscribed_link hgoes hn hpost with ⟨link, hi, hcall, hsent⟩
  rcases isView_channel.kept_of_run (served_of_run hm) (step_cases hn).1 hpost hkept with
    ⟨link', hi', _, hhandled⟩
  obtain rfl := Option.some.inj (hi.symm.trans hi')
  refine ⟨link, hi, hsent, hears_heardAt ?_ ?_⟩
  · exact (endsWithFailure_messagesFor _ _ _).cut
      ((List.take_prefix _ _).trans ⟨_, hsent⟩)
  · rw [List.map_take]
    exact hhandled

/-- Three signals: one comes before the hub has agreed, and one is still with the hub. -/
theorem signalled_of_run_two :
    let send (category : String) : Event :=
      .sendSignal (some 1) category "m" (.valid (.object [])) none
    let message : ResponseMessage := ⟨false, "\x7b\x7d"⟩
    let post : List Event := [send "/a", .hubSends 0 message, send "/a", .deliver 0, send "/a",
      .hubSends 0 message, .deliver 0]
    ∃ s link, run (step .ofEmptyObject (fun _ => "\x7b\x7d") (topicHub .ofEmptyObject))
        (init (some 2) fun _ => .other) (.subscribeToSignal "/a" "m" (some 7) :: post) = some s ∧
      s.links[0]? = some link ∧ (s.heardAt 0).length = 1 ∧
      link.sent ++ (s.hub 0).toPass =
        messagesFor .ofEmptyObject (fun _ => "\x7b\x7d") 0 ("/a", "m") post ∧
      Hears .ofEmptyObject (link.sent.take link.taken) (s.heardAt 0) := by
  intro send message post
  have hrun : (run (step .ofEmptyObject (fun _ => "\x7b\x7d") (topicHub .ofEmptyObject))
      (init (some 2) fun _ => .other) (.subscribeToSignal "/a" "m" (some 7) :: post)).map
        (fun s => (s.heardAt 0).length) = some 1 := by decide +kernel
  rcases Option.map_eq_some_iff.mp hrun with ⟨s, hs, hlength⟩
  rcases signalled_of_run .ofEmptyObject (fun _ => "\x7b\x7d") _ id (goesByUri_topicHub _)
    (some 2) (fun _ => .other) [] post _ s "/a" "m" 7 rfl hs
    (by simp [post, send, Event.givesUp]) with ⟨link, hi, hsent, hhears⟩
  exact ⟨s, link, hs, hi, hlength, hsent, hhears⟩

end Signalling

end LSHelpers
