import LSHelpers.Call.Network
import LSHelpers.Call.View
import LSHelpers.Request.Owed

/-!
# The calls of a network

Whatever the hub and the services do is, for the service point that makes the calls, the
sending of messages. So its handlers are started with the replies to their own calls, in
the order they were sent.
-/

namespace LSHelpers

open Transition

/-- A session as its caller sees it. -/
def Session.toLink (pf : Platform) (session : Session) : Link where
  call := session.request.call
  oneReply := session.request.oneReply
  sent := session.progress.messages pf
  taken := session.taken

namespace Network

variable {pf : Platform} {keepsContext : Bool} {b : Nat → Bus}

def channel (s : Network pf) : Channel :=
  ⟨s.caller, s.sessions.map (Session.toLink pf), s.handled⟩

/-- The responses that a handler was started with. -/
def handledAt (s : Network pf) (address : Nat) : List JsonResponse := s.channel.handledAt address

/-- The event gives up what was called under the token. -/
def Event.givesUp (token : LSMessageToken) : Event pf → Bool
  | .cancelCall t => t == token
  | .destroy => true
  | _ => false

theorem channel_getElem? (s : Network pf) (i : Nat) :
    s.channel.links[i]? = s.sessions[i]?.map (Session.toLink pf) := List.getElem?_map

/-- The method's side of a call only sends. -/
theorem sends_setSession {s : Network pf} {i : Nat} {session : Session}
    (hi : s.sessions[i]? = some session) {progress : Progress}
    (hmore : session.progress.messages pf <+: progress.messages pf) :
    s.channel.Sends (s.setSession i { session with progress }).channel where
  caller := rfl
  handled := rfl
  length := by simp [channel, setSession]
  grows := by
    intro j link link' hj hj'
    rw [channel_getElem?] at hj hj'
    rcases Option.map_eq_some_iff.mp hj with ⟨old, hold, rfl⟩
    rcases Option.map_eq_some_iff.mp hj' with ⟨new, hnew, rfl⟩
    rcases Channel.getElem?_set_cases hi hnew with ⟨rfl, rfl⟩ | ⟨_, hsame⟩
    · obtain rfl := Option.some.inj (hi.symm.trans hold)
      rcases hmore with ⟨more, hmore⟩
      exact ⟨more, by simp [Session.toLink, hmore]⟩
    · obtain rfl := Option.some.inj (hsame.symm.trans hold)
      exact ⟨[], by simp⟩

theorem channel_called {s : Network pf} {hasHandler oneReply : Bool} (key : MethodKey)
    (params : JValue) {token : LSMessageToken} {caller : Caller}
    (hcaller : s.caller.callStep (.makeCall hasHandler oneReply (some token)) = some caller) :
    Channel.step pf s.channel (.makeCall hasHandler oneReply (some token)) =
      some (Network.channel { s with
        caller
        sessions :=
          s.sessions ++ [⟨s.request hasHandler oneReply key params token, .sent, 0⟩] }) := by
  simp [Channel.step, channel, hcaller, Session.toLink, request, Channel.makes, Progress.messages]

/-- The service point of the network. -/
theorem isView_channel : Channel.IsView pf (Network.step pf keepsContext b) channel
    Event.givesUp := by
  intro s e n hstep
  cases step_cases pf keepsContext b hstep with
  | called hcaller => exact .inr ⟨_, channel_called _ _ hcaller, fun _ => rfl⟩
  | failed | registry _ => exact .inl ⟨rfl, fun _ => rfl⟩
  | @cancelCall token caller hcaller =>
      exact .inr ⟨.cancelCall token, by simp [Channel.step, channel, hcaller], fun _ => rfl⟩
  | destroy hcaller =>
      exact .inr ⟨.destroy, by simp [Channel.step, channel, hcaller], fun _ => rfl⟩
  | receive hi hsent _ =>
      rcases (sends_setSession hi (by simp [hsent, Progress.messages])).step pf with
        ⟨more, hsend⟩
      exact .inr ⟨.send more, hsend, fun _ => rfl⟩
  | @exchange _ _ session x y hi hx hy =>
      have hmore : session.progress.messages pf <+: (Progress.received y).messages pf := by
        rw [hx]
        exact (Exchange.step_grows pf _ hy).map (Reply.toMessage pf)
      rcases (sends_setSession hi hmore).step pf with ⟨more, hsend⟩
      exact .inr ⟨.send more, hsend, fun _ => rfl⟩
  | @delivered i session message caller hi hmessage hlive hcaller =>
      refine .inr ⟨.deliver i, ?_, fun _ => rfl⟩
      simp [Channel.step, Channel.take, channel, hi, Session.toLink, hmessage, hlive, hcaller,
        List.map_set]
  | @dropped i session message hi hmessage hdead =>
      refine .inr ⟨.deliver i, ?_, fun _ => rfl⟩
      simp [Channel.step, Channel.take, channel, hi, Session.toLink, hmessage, hdead, setSession,
        List.map_set]

theorem served_init (handle : Option LSHandle) : (init pf handle).channel.Served pf :=
  Channel.served_init handle

theorem served_of_run {m s : Network pf} {es : List (Event pf)} (hm : m.channel.Served pf)
    (h : run (step pf keepsContext b) m es = some s) : s.channel.Served pf :=
  isView_channel.served_of_run hm h

/-- No more comes back than is sent. -/
theorem taken_le {s : Network pf} (h : s.channel.Served pf) {i : Nat} {session : Session}
    (hi : s.sessions[i]? = some session) {t : LSMessageToken} {a : Nat}
    (hcall : session.request.call = ⟨t, some a⟩) :
    session.taken ≤ (session.responses pf).length := by
  rw [Session.responses, List.length_map]
  exact (h.streams i (session.toLink pf) t a (by simp [channel_getElem?, hi]) hcall).sent

/-- What is asked of the handlers of all calls. -/
structure ServedInOrder (s : Network pf) : Prop where
  streamed : ∀ session ∈ s.sessions, ∀ t a, session.request.call = ⟨t, some a⟩ →
    Channel.Streamed pf s.channel (session.toLink pf) t a
  started : s.caller.started.map Invocation.address = s.handled.map Prod.fst
  known : ∀ x ∈ s.handled, ∃ session ∈ s.sessions, ∃ t, session.request.call = ⟨t, some x.1⟩

/-- In any run a handler is started with what was sent back to its own call: in order and
without a gap or a second time, with everything that has come back as long as the call is
live, and at most once for a call of one reply. -/
theorem servedInOrder_of_run (pf : Platform) (keepsContext : Bool) (b : Nat → Bus)
    (handle : Option LSHandle) (events : List (Event pf)) (s : Network pf)
    (h : run (Network.step pf keepsContext b) (init pf handle) events = some s) :
    s.ServedInOrder := by
  have hserved := served_of_run (served_init handle) h
  refine ⟨?_, hserved.started, ?_⟩
  · intro session hsession t a hcall
    rcases List.mem_iff_getElem?.mp hsession with ⟨i, hi⟩
    exact hserved.streams i _ t a (by simp [channel_getElem?, hi]) hcall
  · intro x hx
    rcases hserved.handled x hx with ⟨c, hc, t, hcall⟩
    rcases List.mem_map.mp hc with ⟨link, hlink, rfl⟩
    rcases List.mem_map.mp hlink with ⟨session, hsession, rfl⟩
    exact ⟨session, hsession, t, hcall⟩

/-- Two calls at once: the one that is answered is cancelled before the answer arrives, the
other gets the error of the hub. -/
theorem servedInOrder_of_run_cancelled :
    let events : List (Event .ofEmptyObject) := [
      .registry (.create 0 (some 2)),
      .registry
        (.registerMethod 0 "/" "watch" (fun params => ⟨[], .returns params⟩) () 5 none none),
      .makeCall true false ⟨2, "/", "watch"⟩ (.valid (.object [])) (some 7),
      .makeCall true true ⟨2, "/", "get"⟩ (.valid (.object [])) (some 8),
      .receive 1 "no method", .receive 0 "no method",
      .exchange 0 (.handlerReturns (.valid (.bool true))), .exchange 0 .settle,
      .cancelCall 7, .deliver 0, .deliver 1]
    ∃ s, run (Network.step .ofEmptyObject false fun _ => .reliable) (init .ofEmptyObject (some 1))
      events = some s ∧ s.handled.map Prod.fst = [1] ∧ s.ServedInOrder := by
  intro events
  exact ⟨_, rfl, rfl,
    servedInOrder_of_run .ofEmptyObject false (fun _ => .reliable) (some 1) events _ rfl⟩

/-- From the step that gives up a call its handler is started no more, whatever is on its
way and whatever is called under the same token after that. -/
theorem silent_of_run (pf : Platform) (keepsContext : Bool) (b : Nat → Bus)
    (handle : Option LSHandle) (pre post : List (Event pf)) (m s : Network pf) (e : Event pf)
    (session : Session) (token : LSMessageToken) (address : Nat)
    (hm : run (Network.step pf keepsContext b) (init pf handle) pre = some m)
    (hsession : session ∈ m.sessions) (hcall : session.request.call = ⟨token, some address⟩)
    (hgives : e.givesUp token = true)
    (hs : run (Network.step pf keepsContext b) m (e :: post) = some s) :
    s.handledAt address = m.handledAt address := by
  have hmade : (session.toLink pf).toMadeCall ∈ m.channel.calls :=
    List.mem_map_of_mem (List.mem_map_of_mem hsession)
  have hserved := served_of_run (served_init handle) hm
  exact isView_channel.handledAt_of_givesUp hserved hmade hcall hgives hs

/-- The reply is on its way when the call is cancelled, and its token is used again. -/
theorem silent_of_run_again :
    let pre : List (Event .ofEmptyObject) := [
      .registry (.create 0 (some 2)),
      .registry
        (.registerMethod 0 "/" "watch" (fun params => ⟨[], .returns params⟩) () 5 none none),
      .makeCall true false ⟨2, "/", "watch"⟩ (.valid (.object [])) (some 7), .receive 0 "no method",
      .exchange 0 (.handlerReturns (.valid (.bool true))), .exchange 0 .settle]
    let post : List (Event .ofEmptyObject) := [
      .makeCall true false ⟨2, "/", "get"⟩ (.valid (.object [])) (some 7), .receive 1 "no method",
      .deliver 0, .deliver 1]
    ∃ m s, run (Network.step .ofEmptyObject false fun _ => .reliable)
        (init .ofEmptyObject (some 1)) pre = some m ∧
      run (Network.step .ofEmptyObject false fun _ => .reliable) m (.cancelCall 7 :: post) =
        some s ∧
      s.handled.map Prod.fst = [1] ∧ s.handledAt 0 = m.handledAt 0 := by
  intro pre post
  exact ⟨_, _, rfl, rfl, rfl, silent_of_run .ofEmptyObject false (fun _ => .reliable) (some 1) pre
    post _ _ (.cancelCall 7) _ 7 0 rfl List.mem_cons_self rfl rfl rfl⟩

end Network

end LSHelpers
