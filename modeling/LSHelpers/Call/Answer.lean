import LSHelpers.Call.InOrder
import LSHelpers.Method.Dispatch

/-!
# Calls that are not given up

The handler of a call that is neither cancelled nor destroyed with its service point is
started with every reply that comes back, or with the first if the call is for one reply.
When the method is done with the request, and has reported it as handled, there is such a
reply, and for a method that does not defer it is what the method returned.
-/

namespace LSHelpers

/-- The method is done with the request and has reported it as handled, or the hub has
refused it. -/
def Session.Concluded (session : Session) : Prop :=
  match session.progress with
  | .sent => False
  | .refused _ => True
  | .received x => x.phase = .finished (.ok true) ∧ x.request = none

namespace Network

open Transition

variable {pf : Platform} {keepsContext : Bool} {b : Nat → Bus}

/-! ## What a session keeps -/

/-- A session keeps its request. -/
theorem step_session {s n : Network pf} {e : Event pf}
    (hstep : step pf keepsContext b s e = some n) {i : Nat} {session : Session}
    (hi : s.sessions[i]? = some session) :
    ∃ session', n.sessions[i]? = some session' ∧ session'.request = session.request := by
  have hset {j : Nat} {old : Session} (hj : s.sessions[j]? = some old) (progress : Progress)
      (taken : Nat) : ∃ session', (s.sessions.set j ⟨old.request, progress, taken⟩)[i]? =
        some session' ∧ session'.request = session.request := by
    by_cases hij : i = j
    · subst hij
      obtain rfl := Option.some.inj (hi.symm.trans hj)
      rcases List.getElem?_eq_some_iff.mp hi with ⟨hlt, _⟩
      exact ⟨_, List.getElem?_set_self hlt, rfl⟩
    · exact ⟨session, (List.getElem?_set_ne (Ne.symm hij)).trans hi, rfl⟩
  cases step_cases pf keepsContext b hstep with
  | called hcaller =>
      rcases List.getElem?_eq_some_iff.mp hi with ⟨hlt, _⟩
      exact ⟨session, (List.getElem?_append_left hlt).trans hi, rfl⟩
  | failed | cancelCall _ | destroy _ | registry _ => exact ⟨session, hi, rfl⟩
  | receive hj _ _ | exchange hj _ _ | delivered hj _ _ _ | dropped hj _ _ => exact hset hj _ _

/-! ## The method's side -/

/-- Every exchange whose replies the bus takes accounts for its call. -/
def Accounts (b : Nat → Bus) (s : Network pf) : Prop :=
  ∀ (i : Nat) session x, (b i).Reliable → s.sessions[i]? = some session →
    session.progress = .received x → x.Held ∧ x.Accounted

theorem enter_accounts {b : Bus} (hb : b.Reliable) {payload refusal : String}
    {d : Registry.Dispatch pf} {x : Exchange}
    (h : enter pf b payload refusal d = some (.received x)) : x.Held ∧ x.Accounted := by
  cases d with
  | unknownMethod | dangling => cases h
  | removed =>
      cases h
      rw [Registry.removedMethodHandler, Exchange.send_reliable hb]
      exact ⟨fun hin => absurd rfl (hin (.ok true)), fun _ => .inl (by simp)⟩
  | noHandler =>
      cases h
      exact ⟨fun hin => absurd rfl (hin (.ok false)), fun hphase => by cases hphase⟩
  | handled info =>
      cases h
      exact ⟨Exchange.held_start pf b payload info.schema,
        Exchange.accounted_start pf hb payload info.schema⟩

theorem Accounts.step {s n : Network pf} {e : Event pf} (h : s.Accounts b)
    (hstep : Network.step pf keepsContext b s e = some n) : n.Accounts b := by
  intro j old x hb hj hx
  cases step_cases pf keepsContext b hstep with
  | called _ =>
      rcases Channel.getElem?_concat hj with hj | ⟨rfl, rfl⟩
      · exact h j old x hb hj hx
      · cases hx
  | failed | cancelCall _ | destroy _ | registry _ => exact h j old x hb hj hx
  | receive hi _ henter =>
      rcases Channel.getElem?_set_cases hi hj with ⟨rfl, rfl⟩ | ⟨_, hj⟩
      · exact enter_accounts hb (henter.trans (congrArg some hx))
      · exact h j old x hb hj hx
  | exchange hi hprogress hy =>
      rcases Channel.getElem?_set_cases hi hj with ⟨rfl, rfl⟩ | ⟨_, hj⟩
      · cases hx
        rcases h j _ _ hb hi hprogress with ⟨hheld, haccounted⟩
        exact ⟨hheld.step pf _ hy, haccounted.step pf hb hheld hy⟩
      · exact h j old x hb hj hx
  | delivered hi _ _ _ | dropped hi _ _ =>
      rcases Channel.getElem?_set_cases hi hj with ⟨rfl, rfl⟩ | ⟨_, hj⟩
      · exact h j _ x hb hi hx
      · exact h j old x hb hj hx

theorem accounts_of_run {handle : Option LSHandle} {es : List (Event pf)} {s : Network pf}
    (h : run (step pf keepsContext b) (init pf handle) es = some s) : s.Accounts b := by
  refine run_invariant (I := fun s => s.Accounts b) (fun _ _ _ hm hn => hm.step hn) h ?_
  intro i session x _ hi
  simp [init] at hi

/-- A method that is done has replied. -/
theorem Accounts.responses {s : Network pf} (h : s.Accounts b) {i : Nat} {session : Session}
    (hb : (b i).Reliable) (hi : s.sessions[i]? = some session) (hdone : session.Concluded) :
    session.responses pf ≠ [] := by
  unfold Session.Concluded at hdone
  unfold Session.responses Progress.messages
  cases hprogress : session.progress with
  | sent => simp [hprogress] at hdone
  | refused text => simp
  | received x =>
      rw [hprogress] at hdone
      rcases (h i session x hb hi hprogress).2 hdone.1 with hreplies | ⟨r, hr, _⟩
      · simpa using hreplies
      · rw [hdone.2] at hr
        cases hr

/-! ## Whole runs -/

section

variable {m n s : Network pf} {es : List (Event pf)} {oneReply : Bool} {key : MethodKey}
  {params : JValue} {token : LSMessageToken}

/-- The session of a call that is made. -/
theorem session_of_run
    (hn : step pf keepsContext b m (.makeCall true oneReply key params (some token)) = some n)
    (hs : run (step pf keepsContext b) n es = some s) :
    ∃ session, s.sessions[m.sessions.length]? = some session ∧
      session.request = m.request true oneReply key params token := by
  refine run_invariant (I := fun s => ∃ session, s.sessions[m.sessions.length]? = some session ∧
    session.request = m.request true oneReply key params token) ?_ hs ?_
  · intro u e v hu hv
    rcases hu with ⟨session, hi, hrequest⟩
    rcases step_session hv hi with ⟨session', hi', hrequest'⟩
    exact ⟨session', hi', hrequest'.trans hrequest⟩
  · cases step_cases pf keepsContext b hn with
    | called _ => exact ⟨_, List.getElem?_concat_length, rfl⟩

/-- What has come back of a call that is kept has been given to its handler. -/
theorem handledAt_of_run (hm : m.channel.Served pf)
    (hn : step pf keepsContext b m (.makeCall true oneReply key params (some token)) = some n)
    (hs : run (step pf keepsContext b) n es = some s)
    (hkept : ∀ e ∈ es, e.givesUp token = false) {session : Session}
    (hi : s.sessions[m.sessions.length]? = some session) :
    s.handledAt m.caller.nextAddress = (session.responses pf).take
      (if oneReply then min 1 session.taken else session.taken) := by
  have hmade : Channel.step pf m.channel (.makeCall true oneReply (some token)) =
      some n.channel := by
    cases step_cases pf keepsContext b hn with
    | called hcaller => exact channel_called key params hcaller
  rcases isView_channel.kept_of_run hm hmade hs hkept with ⟨link, hlink, _, hhandled⟩
  have hlength : m.channel.links.length = m.sessions.length := by simp [channel]
  rw [hlength, channel_getElem?, hi] at hlink
  obtain rfl := Option.some.inj hlink
  exact hhandled

end

/-- A call that is kept has its handler started with what has come back of it, and when the
method is done with it and everything has come back, the handler has been started. -/
theorem keptCall_of_run (pf : Platform) (keepsContext : Bool) (b : Nat → Bus)
    (handle : Option LSHandle) (pre post : List (Event pf)) (m s : Network pf) (oneReply : Bool)
    (key : MethodKey) (params : JValue) (token : LSMessageToken)
    (h : run (step pf keepsContext b) (init pf handle)
      (pre ++ .makeCall true oneReply key params (some token) :: post) = some s)
    (hm : run (step pf keepsContext b) (init pf handle) pre = some m)
    (hkept : ∀ e ∈ post, e.givesUp token = false) :
    ∃ session, s.sessions[m.sessions.length]? = some session ∧
      session.request = m.request true oneReply key params token ∧
      s.handledAt m.caller.nextAddress = (session.responses pf).take
        (if oneReply then min 1 session.taken else session.taken) ∧
      ((b m.sessions.length).Reliable → session.Concluded →
        session.taken = (session.responses pf).length →
          s.handledAt m.caller.nextAddress ≠ []) := by
  rcases run_next h hm with ⟨n, hn, hs⟩
  rcases session_of_run hn hs with ⟨session, hi, hrequest⟩
  have hhandled := handledAt_of_run (served_of_run (served_init handle) hm) hn hs hkept hi
  refine ⟨session, hi, hrequest, hhandled, ?_⟩
  intro hb hdone hall
  have hreplied := (accounts_of_run h).responses hb hi hdone
  have hpos := List.length_pos_iff.mpr hreplied
  rw [hhandled, ← List.length_pos_iff, List.length_take]
  cases oneReply <;> simp <;> omega

/-- A method that defers its reply, and lets go of the call without one. -/
theorem keptCall_of_run_deferred :
    let pre : List (Event .ofEmptyObject) := [
      .registry (.create 0 (some 2)),
      .registry
        (.registerMethod 0 "/" "wait" (fun _ => ⟨[.defer], .returns .invalid⟩) () 5 none none)]
    let post : List (Event .ofEmptyObject) := [.receive 0 "no method", .exchange 0 (.act .defer),
      .exchange 0 (.handlerReturns .invalid), .exchange 0 .settle, .exchange 0 (.act .drop),
      .deliver 0]
    ∃ m s session, run (step .ofEmptyObject false fun _ => .reliable)
        (init .ofEmptyObject (some 1)) pre = some m ∧
      run (step .ofEmptyObject false fun _ => .reliable) (init .ofEmptyObject (some 1))
        (pre ++ .makeCall true true ⟨2, "/", "wait"⟩ (.valid (.object [])) (some 7) :: post) =
          some s ∧
      s.sessions[0]? = some session ∧
      s.handledAt 0 = (session.responses .ofEmptyObject).take
        (if true then min 1 session.taken else session.taken) ∧
      (session.Concluded → session.taken = (session.responses .ofEmptyObject).length →
        s.handledAt 0 ≠ []) := by
  intro pre post
  rcases keptCall_of_run .ofEmptyObject false (fun _ => .reliable) (some 1) pre post _ _ true
    ⟨2, "/", "wait"⟩ (.valid (.object [])) 7 rfl rfl (by simp [post, Event.givesUp]) with
    ⟨session, hi, _, hhandled, hstarted⟩
  exact ⟨_, _, session, rfl, rfl, hi, hhandled, hstarted Bus.reliable_reliable⟩

end Network

end LSHelpers
