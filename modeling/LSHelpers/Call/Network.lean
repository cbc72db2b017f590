import LSHelpers.Call.Table
import LSHelpers.Method.Registry
import LSHelpers.Response.JsonResponse
import LSHelpers.Transition.Part

/-!
# Calls from end to end

A service point that makes calls, the methods that other service points have registered,
and the hub between them. The hub takes a request to the method that is registered when it
gets there, or answers that there is none; what is replied comes back in the order it was
sent, and the hub drops what belongs to a call that is cancelled. All of this may happen at
any time and for any number of calls at once.

A handler that uses the service point does so after its own start, so what it does follows
in the run. As in `Channel`, `makeCall` is one step, and `LSCallCancel` ends the call.
-/

namespace LSHelpers

/-- What `makeCall` has given to the bus. -/
structure CallRequest where
  call : BusCall
  oneReply : Bool
  key : MethodKey
  payload : String
deriving Repr, DecidableEq

/-- How far a request has come. -/
inductive Progress
  | sent
  | refused (text : String)
  | received (exchange : Exchange)

/-- A call with the number of its replies that have come back. -/
structure Session where
  request : CallRequest
  progress : Progress
  taken : Nat

/-- `handled` has the responses that handlers were started with, with the address of the
`Call` object each handler was taken from. -/
structure Network (pf : Platform) where
  caller : Caller
  registry : Registry pf
  sessions : List Session
  handled : List (Nat × JsonResponse)

def Reply.toMessage (pf : Platform) (reply : Reply) : ResponseMessage :=
  ⟨false, pf.serialize (.valid reply.payload)⟩

/-- What has been sent back so far. -/
def Progress.messages (pf : Platform) : Progress → List ResponseMessage
  | .sent => []
  | .refused text => [⟨true, text⟩]
  | .received exchange => exchange.replies.map (Reply.toMessage pf)

/-- The responses for what has been sent back to a call. -/
def Session.responses (pf : Platform) (session : Session) : List JsonResponse :=
  (session.progress.messages pf).map (JsonResponse.handleLunaResponse pf pf.allSchema)

namespace Network

variable (pf : Platform) (keepsContext : Bool) (b : Nat → Bus)

def init (handle : Option LSHandle) : Network pf := ⟨.init handle, .init pf, [], []⟩

inductive Event (pf : Platform)
  | makeCall (hasHandler oneReply : Bool) (key : MethodKey) (params : JValue)
      (outcome : Option LSMessageToken)
  | cancelCall (token : LSMessageToken)
  | destroy
  | registry (e : Registry.Event pf)
  | receive (i : Nat) (refusal : String)
  | exchange (i : Nat) (e : Exchange.Event)
  | deliver (i : Nat)

/-- A message at the method's place: `methodHandler` or `removedMethodHandler` is entered, or
the hub answers with an error of its own. -/
def enter (b : Bus) (payload refusal : String) : Registry.Dispatch pf → Option Progress
  | .unknownMethod => some (.refused refusal)
  | .removed => some (.received (Registry.removedMethodHandler pf b))
  | .noHandler => some (.received { Exchange.arrived with phase := .finished (.ok false) })
  | .dangling => none
  | .handled info => some (.received (.start pf b payload info.schema))

variable {pf} in
def request (s : Network pf) (hasHandler oneReply : Bool) (key : MethodKey) (params : JValue)
    (token : LSMessageToken) : CallRequest where
  call := ⟨token, if hasHandler then some s.caller.nextAddress else none⟩
  oneReply := oneReply
  key := key
  payload := pf.serialize params

variable {pf} in
def setSession (s : Network pf) (i : Nat) (session : Session) : Network pf :=
  { s with sessions := s.sessions.set i session }

/-- The next reply of a call reaches the caller's side. -/
def take (s : Network pf) (session : Session) (message : ResponseMessage) :
    Option (Network pf) :=
  if session.request.call ∈ s.caller.live then
    (s.caller.callStep (.reply session.request.call.token)).map fun caller =>
      { s with
        caller
        handled := s.handled ++ session.request.call.context.toList.map fun address =>
          (address, JsonResponse.handleLunaResponse pf pf.allSchema message) }
  else some s

def step (s : Network pf) : Event pf → Option (Network pf)
  | .makeCall hasHandler oneReply key params outcome =>
      (s.caller.callStep (.makeCall hasHandler oneReply outcome)).map fun caller =>
        { s with
          caller
          sessions := s.sessions ++ outcome.toList.map fun token =>
            ⟨s.request hasHandler oneReply key params token, .sent, 0⟩ }
  | .cancelCall token =>
      (s.caller.callStep (.cancelCall token)).map fun caller => { s with caller }
  | .destroy => (s.caller.callStep .destroy).map fun caller => { s with caller }
  | .registry e => (s.registry.step keepsContext e).map fun registry => { s with registry }
  | .receive i refusal =>
      s.sessions[i]?.bind fun session =>
        match session.progress with
        | .sent =>
            (enter pf (b i) session.request.payload refusal
              (s.registry.dispatch session.request.key)).map fun progress =>
                s.setSession i { session with progress }
        | .refused _ | .received _ => none
  | .exchange i e =>
      s.sessions[i]?.bind fun session =>
        match session.progress with
        | .sent | .refused _ => none
        | .received x =>
            (x.step pf (b i) e).map fun y => s.setSession i { session with progress := .received y }
  | .deliver i =>
      s.sessions[i]?.bind fun session =>
        (session.progress.messages pf)[session.taken]?.bind fun message =>
          (take pf s session message).map fun t =>
            t.setSession i { session with taken := session.taken + 1 }

/-! ## A step -/

/-- Every event with the ways it can go. -/
inductive Stepped (s : Network pf) : Event pf → Network pf → Prop
  | called {hasHandler oneReply : Bool} {key : MethodKey} {params : JValue}
      {token : LSMessageToken} {caller : Caller}
      (hcaller : s.caller.callStep (.makeCall hasHandler oneReply (some token)) = some caller) :
      Stepped s (.makeCall hasHandler oneReply key params (some token))
        { s with
          caller
          sessions := s.sessions ++ [⟨s.request hasHandler oneReply key params token, .sent, 0⟩] }
  | failed {hasHandler oneReply : Bool} {key : MethodKey} {params : JValue} :
      Stepped s (.makeCall hasHandler oneReply key params none) s
  | cancelCall {token : LSMessageToken} {caller : Caller}
      (hcaller : s.caller.callStep (.cancelCall token) = some caller) :
      Stepped s (.cancelCall token) { s with caller }
  | destroy {caller : Caller} (hcaller : s.caller.callStep .destroy = some caller) :
      Stepped s .destroy { s with caller }
  | registry {e : Registry.Event pf} {registry : Registry pf}
      (hregistry : s.registry.step keepsContext e = some registry) :
      Stepped s (.registry e) { s with registry }
  | receive {i : Nat} {refusal : String} {session : Session} {progress : Progress}
      (hi : s.sessions[i]? = some session) (hsent : session.progress = .sent)
      (henter : enter pf (b i) session.request.payload refusal
        (s.registry.dispatch session.request.key) = some progress) :
      Stepped s (.receive i refusal) (s.setSession i { session with progress })
  | exchange {i : Nat} {e : Exchange.Event} {session : Session} {x y : Exchange}
      (hi : s.sessions[i]? = some session) (hx : session.progress = .received x)
      (hy : x.step pf (b i) e = some y) :
      Stepped s (.exchange i e) (s.setSession i { session with progress := .received y })
  | delivered {i : Nat} {session : Session} {message : ResponseMessage} {caller : Caller}
      (hi : s.sessions[i]? = some session)
      (hmessage : (session.progress.messages pf)[session.taken]? = some message)
      (hlive : session.request.call ∈ s.caller.live)
      (hcaller : s.caller.callStep (.reply session.request.call.token) = some caller) :
      Stepped s (.deliver i)
        { s with
          caller
          sessions := s.sessions.set i { session with taken := session.taken + 1 }
          handled := s.handled ++ session.request.call.context.toList.map fun address =>
            (address, JsonResponse.handleLunaResponse pf pf.allSchema message) }
  | dropped {i : Nat} {session : Session} {message : ResponseMessage}
      (hi : s.sessions[i]? = some session)
      (hmessage : (session.progress.messages pf)[session.taken]? = some message)
      (hdead : session.request.call ∉ s.caller.live) :
      Stepped s (.deliver i) (s.setSession i { session with taken := session.taken + 1 })

theorem step_cases {s t : Network pf} {e : Event pf} (h : step pf keepsContext b s e = some t) :
    Stepped pf keepsContext b s e t := by
  cases e with
  | makeCall hasHandler oneReply key params outcome =>
      rcases Option.map_eq_some_iff.mp h with ⟨caller, hcaller, rfl⟩
      cases outcome with
      | some token => exact .called hcaller
      | none =>
          rcases Option.bind_eq_some_iff.mp hcaller with ⟨p, _, hite⟩
          obtain rfl : caller = s.caller := by
            simpa [Caller.canGive, Caller.makeCall_none, eq_comm] using hite
          simpa using Stepped.failed
  | cancelCall token =>
      rcases Option.map_eq_some_iff.mp h with ⟨caller, hcaller, rfl⟩
      exact .cancelCall hcaller
  | destroy =>
      rcases Option.map_eq_some_iff.mp h with ⟨caller, hcaller, rfl⟩
      exact .destroy hcaller
  | registry e =>
      rcases Option.map_eq_some_iff.mp h with ⟨registry, hregistry, rfl⟩
      exact .registry hregistry
  | receive i refusal =>
      rcases Option.bind_eq_some_iff.mp h with ⟨session, hi, hmatch⟩
      split at hmatch
      · rename_i hsent
        rcases Option.map_eq_some_iff.mp hmatch with ⟨progress, henter, rfl⟩
        exact .receive hi hsent henter
      · cases hmatch
      · cases hmatch
  | exchange i e =>
      rcases Option.bind_eq_some_iff.mp h with ⟨session, hi, hmatch⟩
      split at hmatch
      · cases hmatch
      · cases hmatch
      · rename_i x hx
        rcases Option.map_eq_some_iff.mp hmatch with ⟨y, hy, rfl⟩
        exact .exchange hi hx hy
  | deliver i =>
      rcases Option.bind_eq_some_iff.mp h with ⟨session, hi, hbind⟩
      rcases Option.bind_eq_some_iff.mp hbind with ⟨message, hmessage, hmap⟩
      rcases Option.map_eq_some_iff.mp hmap with ⟨m, hm, rfl⟩
      unfold take at hm
      split at hm
      · rename_i hlive
        rcases Option.map_eq_some_iff.mp hm with ⟨caller, hcaller, rfl⟩
        exact .delivered hi hmessage hlive hcaller
      · rename_i hdead
        obtain rfl := Option.some.inj hm
        exact .dropped hi hmessage hdead

end Network

end LSHelpers
