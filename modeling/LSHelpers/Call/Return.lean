import LSHelpers.Call.Answer

/-!
# A call as a call

What one call does to its method is a run of the method's exchange, and what all events do
to the methods a run of their registry. A call to a method that does not defer is then
what its name says: the handler of the response is started with what the method's handler
makes of the parameters, if that is an answer at all.
-/

namespace LSHelpers

namespace Network

open Transition

variable {pf : Platform} {keepsContext : Bool} {b : Nat → Bus}

/-! ## The parts of the network -/

/-- The event as one of the exchange of call `i`. -/
def Event.exchangeOf (i : Nat) : Event pf → Option Exchange.Event
  | .exchange j e => if j = i then some e else none
  | _ => none

/-- The event as one of the methods. -/
def Event.ofRegistry : Event pf → Option (Registry.Event pf)
  | .registry e => some e
  | _ => none

theorem isPart_registry : IsPart (step pf keepsContext b) (Registry.step keepsContext)
    Event.ofRegistry fun s registry => s.registry = registry := by
  intro s e n registry hs hstep
  subst hs
  cases step_cases pf keepsContext b hstep with
  | registry hregistry => exact .inr ⟨_, _, rfl, hregistry, rfl⟩
  | _ => exact .inl ⟨rfl, rfl⟩

theorem isPart_exchange (i : Nat) : IsPart (step pf keepsContext b) (Exchange.step pf (b i))
    (Event.exchangeOf i) fun s x =>
      ∃ session, s.sessions[i]? = some session ∧ session.progress = .received x := by
  intro s e n x hs hstep
  rcases hs with ⟨session, hi, hx⟩
  have hkept {j : Nat} {old : Session} (hj : s.sessions[j]? = some old) (hij : i ≠ j)
      (new : Session) : ∃ session, (s.sessions.set j new)[i]? = some session ∧
        session.progress = .received x :=
    ⟨session, (List.getElem?_set_ne (Ne.symm hij)).trans hi, hx⟩
  have htaken {j : Nat} {old : Session} (hj : s.sessions[j]? = some old) (taken : Nat) :
      ∃ session, (s.sessions.set j ⟨old.request, old.progress, taken⟩)[i]? = some session ∧
        session.progress = .received x := by
    by_cases hij : i = j
    · subst hij
      obtain rfl := Option.some.inj (hi.symm.trans hj)
      rcases List.getElem?_eq_some_iff.mp hi with ⟨hlt, _⟩
      exact ⟨_, List.getElem?_set_self hlt, hx⟩
    · exact hkept hj hij _
  cases step_cases pf keepsContext b hstep with
  | called _ =>
      rcases List.getElem?_eq_some_iff.mp hi with ⟨hlt, _⟩
      exact .inl ⟨rfl, session, (List.getElem?_append_left hlt).trans hi, hx⟩
  | failed | cancelCall _ | destroy _ | registry _ => exact .inl ⟨rfl, session, hi, hx⟩
  | @receive j _ old _ hj hsent _ =>
      have hij : i ≠ j := by
        rintro rfl
        obtain rfl := Option.some.inj (hi.symm.trans hj)
        rw [hx] at hsent
        cases hsent
      exact .inl ⟨rfl, hkept hj hij _⟩
  | @exchange j e old y z hj hy hz =>
      by_cases hij : i = j
      · subst hij
        obtain rfl := Option.some.inj (hi.symm.trans hj)
        obtain rfl : x = y := by simpa [hx] using hy
        rcases List.getElem?_eq_some_iff.mp hi with ⟨hlt, _⟩
        exact .inr ⟨e, z, by simp [Event.exchangeOf], hz, _, List.getElem?_set_self hlt, rfl⟩
      · exact .inl ⟨by simp [Event.exchangeOf, Ne.symm hij], hkept hj hij _⟩
  | delivered hj _ _ _ | dropped hj _ _ => exact .inl ⟨rfl, htaken hj _⟩

/-- The methods of a run. -/
theorem registry_of_run {handle : Option LSHandle} {es : List (Event pf)} {s : Network pf}
    (h : run (step pf keepsContext b) (init pf handle) es = some s) :
    run (Registry.step keepsContext) (.init pf) (es.filterMap Event.ofRegistry) =
      some s.registry := by
  rcases isPart_registry.run rfl h with ⟨registry, hrun, rfl⟩
  exact hrun

/-! ## No message meets an object that is gone -/

/-- A request that is sent can be received, and a reply that is sent back can be taken. -/
structure Flows (s : Network pf) (keepsContext : Bool) (b : Nat → Bus) : Prop where
  receive : ∀ (i : Nat) session refusal, s.sessions[i]? = some session →
    session.progress = .sent → ∃ n, step pf keepsContext b s (.receive i refusal) = some n
  deliver : ∀ (i : Nat) session, s.sessions[i]? = some session →
    session.taken < (session.responses pf).length →
      ∃ n, step pf keepsContext b s (.deliver i) = some n

/-- In no run a request comes to a method whose object is deleted, or a reply to a call
whose object is. -/
theorem flows_of_run (pf : Platform) (keepsContext : Bool) (b : Nat → Bus)
    (handle : Option LSHandle) (events : List (Event pf)) (s : Network pf)
    (h : run (step pf keepsContext b) (init pf handle) events = some s) :
    s.Flows keepsContext b := by
  constructor
  · intro i session refusal hi hsent
    have hthere := (Registry.Sound.run (registry_of_run h)).dispatch_ne_dangling session.request.key
    have henter : ∃ progress, enter pf (b i) session.request.payload refusal
        (s.registry.dispatch session.request.key) = some progress := by
      cases hdispatch : s.registry.dispatch session.request.key with
      | dangling => exact absurd hdispatch hthere
      | unknownMethod | removed | noHandler | handled _ => exact ⟨_, rfl⟩
    rcases henter with ⟨progress, henter⟩
    exact Option.isSome_iff_exists.mp (by simp [step, hi, hsent, henter])
  · intro i session hi hlt
    rw [Session.responses, List.length_map] at hlt
    have hmessage := List.getElem?_eq_getElem hlt
    by_cases hlive : session.request.call ∈ s.caller.live
    · rcases (served_of_run (served_init handle) h).idle.1.reply_enabled hlive with
        ⟨caller, hcaller⟩
      have hreply : s.caller.callStep (.reply session.request.call.token) = some caller := hcaller
      exact Option.isSome_iff_exists.mp (by simp [step, hi, hmessage, take, hlive, hreply])
    · exact Option.isSome_iff_exists.mp (by simp [step, hi, hmessage, take, hlive])

/-- The method is gone with its service point before the request arrives, and the call is
cancelled before the reply does. -/
theorem flows_of_run_removed :
    let events : List (Event .ofEmptyObject) := [
      .registry (.create 0 (some 2)),
      .registry (.registerMethod 0 "/" "echo" (fun params => ⟨[], .returns params⟩) () 5 none none),
      .makeCall true true ⟨2, "/", "echo"⟩ (.valid (.object [])) (some 7),
      .registry (.destroy 0), .receive 0 "no method", .cancelCall 7]
    ∃ s, run (step .ofEmptyObject false fun _ => .reliable) (init .ofEmptyObject (some 1)) events =
      some s ∧ s.Flows false fun _ => .reliable := by
  intro events
  exact ⟨_, rfl, flows_of_run .ofEmptyObject false (fun _ => .reliable) (some 1) events _ rfl⟩

/-! ## The answer of a method -/

/-- The response that stands for an object. -/
def answered (payload : Json) : JsonResponse := ⟨.ofJson (.valid payload), true⟩

/-- The platform reads what it has written. -/
theorem handleLunaResponse_toMessage {reply : Reply}
    (hround : pf.fromString (pf.serialize (.valid reply.payload)) pf.allSchema =
      .valid reply.payload) :
    JsonResponse.handleLunaResponse pf pf.allSchema (reply.toMessage pf) =
      answered reply.payload := by
  simp [JsonResponse.handleLunaResponse, JsonResponse.classify, Reply.toMessage, hround,
    JValue.isValid, answered]

/-- What a method that does not defer sends back. -/
theorem responses_of_undeferred {session : Session} {x : Exchange} {outcome : Outcome}
    (hx : session.progress = .received x)
    (hreplies : x.replies = [] ∨ x.replies.map Reply.payload = (outcome.answer pf).toList)
    (hround : ∀ payload ∈ outcome.answer pf,
      pf.fromString (pf.serialize (.valid payload)) pf.allSchema = .valid payload) :
    session.responses pf = [] ∨
      session.responses pf = (outcome.answer pf).toList.map answered := by
  simp only [Session.responses, Progress.messages, hx]
  rcases hreplies with hnone | hanswer
  · simp [hnone]
  · right
    rw [← hanswer, List.map_map, List.map_map]
    apply List.map_congr_left
    intro reply hreply
    apply handleLunaResponse_toMessage
    apply hround
    have hmem := List.mem_map_of_mem (f := Reply.payload) hreply
    rw [hanswer] at hmem
    simpa using hmem

/-- A call that is kept, whose request has come to the method `info` and whose handler has
ended there without deferring: its own handler is started with the answer, once, when this
has come back, and never if there is none. -/
theorem returned_of_run (pf : Platform) (keepsContext : Bool) (b : Nat → Bus)
    (handle : Option LSHandle) (pre mid post : List (Event pf)) (m u s : Network pf)
    (oneReply : Bool) (key : MethodKey) (params value : JValue) (token : LSMessageToken)
    (refusal : String) (info : MethodInfo pf) (outcome : Outcome)
    (hm : run (step pf keepsContext b) (init pf handle) pre = some m)
    (hu : run (step pf keepsContext b) m
      (.makeCall true oneReply key params (some token) :: mid) = some u)
    (hs : run (step pf keepsContext b) u (.receive m.sessions.length refusal :: post) = some s)
    (hkept : ∀ e ∈ mid ++ post, e.givesUp token = false)
    (hdispatch : u.registry.dispatch key = .handled info)
    (hvalid : validate pf (pf.serialize params) info.schema = .ok value)
    (houtcome : .ofOutcome outcome ∈ post.filterMap (Event.exchangeOf m.sessions.length))
    (hdefer : .act .defer ∉ post.filterMap (Event.exchangeOf m.sessions.length))
    (hround : ∀ payload ∈ outcome.answer pf,
      pf.fromString (pf.serialize (.valid payload)) pf.allSchema = .valid payload)
    (hb : (b m.sessions.length).Reliable) :
    ∃ session, s.sessions[m.sessions.length]? = some session ∧
      (outcome.answer pf = none → s.handledAt m.caller.nextAddress = []) ∧
      ∀ payload, outcome.answer pf = some payload →
        s.handledAt m.caller.nextAddress =
          (if session.taken = 0 then [] else [answered payload]) ∧
        (session.Concluded → session.taken = (session.responses pf).length →
          s.handledAt m.caller.nextAddress = [answered payload]) := by
  have hserved := served_of_run (served_init handle) hm
  rcases run_cons_iff.mp hu with ⟨n, hn, hmid⟩
  rcases session_of_run hn hmid with ⟨session, hi, hrequest⟩
  rcases run_cons_iff.mp hs with ⟨v, hv, hpost⟩
  have hreceived : ∃ session, v.sessions[m.sessions.length]? = some session ∧
      session.progress = .received (.enterHandler value) := by
    cases step_cases pf keepsContext b hv with
    | @receive _ _ old _ hi' _ henter =>
        obtain rfl := Option.some.inj (hi.symm.trans hi')
        rcases List.getElem?_eq_some_iff.mp hi with ⟨hlt, _⟩
        refine ⟨_, List.getElem?_set_self hlt, ?_⟩
        rw [hrequest] at henter
        simpa [enter, Network.request, hdispatch, Exchange.start, hvalid, eq_comm] using henter
  rcases (isPart_exchange m.sessions.length).run hreceived hpost with
    ⟨x, hx, session', hi', hprogress⟩
  have hmade := run_append_iff.mpr ⟨u, hmid, hs⟩
  have hkept' : ∀ e ∈ mid ++ .receive m.sessions.length refusal :: post,
      Event.givesUp token e = false := by
    simpa [or_imp, forall_and, Event.givesUp] using hkept
  have hhandled := handledAt_of_run hserved hn hmade hkept' hi'
  rcases session_of_run hn hmade with ⟨last, hlast, hrequest'⟩
  obtain rfl := Option.some.inj (hi'.symm.trans hlast)
  have hcall : session'.request.call = ⟨token, some m.caller.nextAddress⟩ := by
    rw [hrequest']
    rfl
  have hsent := taken_le (served_of_run hserved (run_cons_iff.mpr ⟨n, hn, hmade⟩)) hi' hcall
  have hresponses := responses_of_undeferred hprogress
    (Exchange.undeferred_of_run pf hb hx houtcome hdefer) hround
  have hstarted : s.handledAt m.caller.nextAddress =
      if session'.taken = 0 then [] else (outcome.answer pf).toList.map answered := by
    rw [hhandled]
    by_cases htaken : session'.taken = 0
    · simp [htaken]
    · have hanswer := hresponses.resolve_left fun hnil => by simp [hnil, htaken] at hsent
      rw [hanswer, if_neg htaken]
      apply List.take_of_length_le
      have hshort : ((outcome.answer pf).toList.map answered).length ≤ 1 := by
        cases outcome.answer pf <;> simp
      split <;> omega
  refine ⟨_, hi', ?_, ?_⟩
  · intro hnone
    simpa [hnone] using hstarted
  · intro payload hpayload
    simp only [hpayload, Option.toList_some, List.map_cons, List.map_nil] at hstarted
    refine ⟨hstarted, ?_⟩
    intro hdone hall
    have hrun := run_append_iff.mpr ⟨m, hm, run_cons_iff.mpr ⟨n, hn, hmade⟩⟩
    have hreplied := (accounts_of_run hrun).responses hb hi' hdone
    have hpos := List.length_pos_iff.mpr hreplied
    rw [hstarted, if_neg (by omega)]

/-- A method that gives its parameters back. -/
theorem returned_of_run_echo :
    let pre : List (Event .ofEmptyObject) := [
      .registry (.create 0 (some 2)),
      .registry (.registerMethod 0 "/" "echo" (fun params => ⟨[], .returns params⟩) () 5 none none)]
    let post : List (Event .ofEmptyObject) := [
      .exchange 0 (.handlerReturns (.valid (.object []))), .exchange 0 .settle, .deliver 0]
    ∃ m u s, run (step .ofEmptyObject false fun _ => .reliable) (init .ofEmptyObject (some 1)) pre =
        some m ∧
      run (step .ofEmptyObject false fun _ => .reliable) m
        [.makeCall true true ⟨2, "/", "echo"⟩ (.valid (.object [])) (some 7)] = some u ∧
      run (step .ofEmptyObject false fun _ => .reliable) u (.receive 0 "no method" :: post) =
        some s ∧
      ∃ session, s.sessions[0]? = some session ∧ session.taken = 1 ∧
        s.handledAt 0 = if session.taken = 0 then [] else [answered (.object [])] := by
  intro pre post
  rcases returned_of_run .ofEmptyObject false (fun _ => .reliable) (some 1) pre [] post _ _ _ true
      ⟨2, "/", "echo"⟩ (.valid (.object [])) (.valid (.object [])) 7 "no method"
      ⟨5, 0, fun params => ⟨[], .returns params⟩, (), "/", "echo"⟩ (.returns (.valid (.object [])))
      rfl rfl rfl (by simp [post, Event.givesUp]) rfl rfl (by simp [post, Event.exchangeOf, init,
        Exchange.Event.ofOutcome]) (by simp [post, Event.exchangeOf])
      (by simp [Outcome.answer, responseObject, Platform.ofEmptyObject]) Bus.reliable_reliable with
    ⟨session, hi, _, hstarted⟩
  refine ⟨_, _, _, rfl, rfl, rfl, session, hi, ?_, (hstarted _ rfl).1⟩
  cases hi
  rfl

end Network

end LSHelpers
