import LSHelpers.Status.Outstanding
import LSHelpers.Status.ServiceUri

/-!
# How `cancel` and `subscribe` leave the object

Both clear the parameters and the handler first and then cancel the watch, and `cancel`
ends the call last. A watch that the bus does not let go of stays on the bus, and so does
the call: either there is one, or the next notification makes one with nothing in it. A
callback that throws out of its registration leaves a watch on the bus too, which no later
cancel reaches where the cookie had not been written.
-/

namespace LSHelpers

namespace Subscriber

open Transition

/-- No call is outstanding, and none is issued before the next `subscribe`. -/
def Silent (pf : Platform) (s : Subscriber) : Prop :=
  ∀ later t, (∀ e ∈ later, e.isSubscribe = false) → run (step pf) s later = some t → t.calls = []

/-- There is no watch, or the bus lets go of it when the event asks it to. -/
def WatchLetGo (s : Subscriber) (e : Event) : Prop :=
  s.sub.mServiceStatus.mCookie = none ∨ e.cancelOk = true

/-- The watch is let go of, and no callback throws out of a registration. -/
def ExitsClean (s : Subscriber) (e : Event) : Prop := s.WatchLetGo e ∧ e.throws = false

/-- The same event, with a bus that lets go of the watch. -/
def Event.granted : Event → Event
  | .subscribe handle uri params handler _ endsCall registering =>
      .subscribe handle uri params handler true endsCall registering
  | .cancel _ endsCall => .cancel true endsCall
  | .notify cookie serviceUp outcome endsCall => .notify cookie serviceUp outcome endsCall

theorem granted_of_cancelOk {e : Event} (h : e.cancelOk = true) : e.granted = e := by
  cases e with
  | subscribe handle uri params handler cancelOk endsCall registering =>
      obtain rfl : cancelOk = true := h
      rfl
  | cancel cancelOk endsCall =>
      obtain rfl : cancelOk = true := h
      rfl
  | notify => rfl

theorem granted_fair {s : Subscriber} {e : Event} (hclean : s.ExitsClean e)
    (hends : e.endsCall = true) : e.granted.Fair := by
  rcases hclean with ⟨_, hreturns⟩
  cases e with
  | subscribe | cancel | notify => exact ⟨rfl, hends, hreturns⟩

/-! ## The bus lets go -/

theorem cancel_of_no_cookie {s : Subscriber} (h : s.sub.mServiceStatus.mCookie = none)
    (cancelOk endsCall : Bool) : s.cancel cancelOk endsCall = s.cancel true endsCall := by
  simp [Subscriber.cancel, ServerStatus.cancel, h]

theorem watch_eq_of_no_cookie {s : Subscriber} (h : s.sub.mServiceStatus.mCookie = none)
    (handle : LSHandle) (name : List Char) (cancelOk : Bool) (registering : Registering) :
    s.watch handle name cancelOk registering = s.watch handle name true registering := by
  simp [watch, ServerStatus.set, ServerStatus.cancel, h]

/-- Without a watch it does not matter what the bus would say. -/
theorem subscribe_of_no_cookie (pf : Platform) {s : Subscriber}
    (h : s.sub.mServiceStatus.mCookie = none) (handle : Option LSHandle) (uri : String)
    (params : JValue) (handler : Option Nat) (cancelOk endsCall : Bool)
    (registering : Registering) :
    s.subscribe pf handle uri params handler cancelOk endsCall registering =
      s.subscribe pf handle uri params handler true endsCall registering := by
  have hsame :=
    cancel_of_no_cookie (s := { s with subscribes := s.subscribes + 1 }) h cancelOk endsCall
  cases hcancel : cancel { s with subscribes := s.subscribes + 1 } true endsCall with
  | mk result t =>
      rw [hcancel] at hsame
      cases result with
      | error e => simp only [subscribe, hsame, hcancel]
      | ok =>
          have hcookie := cancel_ok_cookie hcancel
          rw [subscribe_of_cancel pf handle uri params handler hsame,
            subscribe_of_cancel pf handle uri params handler hcancel]
          rcases afterCancel_cases pf handle uri params handler with
            ⟨_, e, hrefused⟩ | ⟨_, handle', handler', hthrown⟩ | ⟨_, handle', handler', name, hwatch⟩
          · rw [hrefused, hrefused]
          · rw [hthrown, hthrown]
          · rw [hwatch, hwatch]
            apply watch_eq_of_no_cookie
            exact hcookie

theorem step_granted (pf : Platform) {s : Subscriber} {e : Event} (h : s.WatchLetGo e) :
    step pf s e = step pf s e.granted ∧ (s.stops pf e ↔ s.stops pf e.granted) := by
  cases h with
  | inr hok =>
      rw [granted_of_cancelOk hok]
      exact ⟨rfl, Iff.rfl⟩
  | inl hcookie =>
      cases e with
      | subscribe handle uri params handler cancelOk endsCall registering =>
          simp only [Event.granted, step, stops]
          rw [subscribe_of_no_cookie pf hcookie handle uri params handler cancelOk]
          exact ⟨rfl, Iff.rfl⟩
      | cancel cancelOk endsCall =>
          simp only [Event.granted, step, stops]
          rw [cancel_of_no_cookie hcookie cancelOk]
          exact ⟨rfl, trivial⟩
      | notify => exact ⟨rfl, Iff.rfl⟩

/-- An idle object stays so until the next `subscribe`. -/
theorem Idle.silent {pf : Platform} {s : Subscriber} (h : s.Idle) : s.Silent pf := by
  intro later t hlater hrun
  have hidle : t.Idle := by
    refine run_induction (P := fun _ t => t.Idle) (C := fun _ e => e.isSubscribe = false) h ?_
      (Meets.of_forall fun e he _ => hlater e he) hrun
    intro _ e m n _ hm he hn
    exact hm.step he hn
  exact hidle.calls

theorem Tracked.step_clean {pf : Platform} {s t : Subscriber} {e : Event} (h : s.Tracked)
    (hclean : s.ExitsClean e) (hends : e.endsCall = true)
    (hstep : Subscriber.step pf s e = some t) :
    t.Tracked ∧ (s.Current → t.Current) ∧ (s.stops pf e → t.Idle) := by
  rcases step_granted pf hclean.1 with ⟨hsame, hstops⟩
  rw [hsame] at hstep
  rcases h.step (granted_fair hclean hends) hstep with ⟨htracked, hcurrent, _, hidle⟩
  exact ⟨htracked, hcurrent, fun hexit => hidle (hstops.mp hexit)⟩

/-! ## The bus does not -/

/-- The parameters and the handler are gone, and nothing else has changed. -/
theorem cancel_refused {s : Subscriber} (h : s.sub.mServiceStatus.mCookie ≠ none)
    (endsCall : Bool) :
    s.cancel false endsCall = (.error (.status .cancelServerStatus),
      { s with sub := { s.sub with mParams := "", mResultHandler := none } }) := by
  unfold Subscriber.cancel ServerStatus.cancel
  cases hcookie : s.sub.mServiceStatus.mCookie with
  | none => exact absurd hcookie h
  | some cookie => simp [hcookie]

/-- Whatever asked for the cancel throws, and leaves the watch and the call. -/
theorem step_refused {pf : Platform} {s t : Subscriber} {e : Event} (h : ¬ s.WatchLetGo e)
    (hstep : step pf s e = some t) :
    s.stops pf e ∧ t.calls = s.calls ∧ t.bus = s.bus ∧
      t.sub = { s.sub with mParams := "", mResultHandler := none } := by
  rw [WatchLetGo, not_or, Bool.not_eq_true] at h
  rcases h with ⟨hcookie, hrefused⟩
  cases e with
  | subscribe handle uri params handler cancelOk endsCall registering =>
      obtain rfl : cancelOk = false := hrefused
      have hcancel :=
        cancel_refused (s := { s with subscribes := s.subscribes + 1 }) hcookie endsCall
      have hthrown : s.subscribe pf handle uri params handler false endsCall registering =
          (.error (.status .cancelServerStatus), { s with
            subscribes := s.subscribes + 1
            sub := { s.sub with mParams := "", mResultHandler := none } }) := by
        simp only [subscribe, hcancel]
      obtain rfl := Option.some.inj hstep
      rw [stops, hthrown]
      exact ⟨by simp, rfl, rfl, rfl⟩
  | cancel cancelOk endsCall =>
      obtain rfl : cancelOk = false := hrefused
      obtain rfl := Option.some.inj hstep
      rw [cancel_refused hcookie]
      exact ⟨trivial, rfl, rfl, rfl⟩
  | notify => cases hrefused

/-! ## What holds in every run -/

/-- The object knows its call, its watch is on the bus, and it has a handle where there is a
watch on the bus. A watch may be there that the object does not know. -/
structure Held (s : Subscriber) : Prop where
  call : s.KnowsCall
  watch : s.sub.mServiceStatus.mCookie ≠ none → s.bus.registrations ≠ []
  handle : s.bus.registrations ≠ [] → s.sub.mHandle ≠ none

theorem exists_cancel_ok {s : Subscriber} (cancelOk endsCall : Bool)
    (h : s.sub.mServiceStatus.mCookie = none ∨ cancelOk = true) :
    ∃ t, s.cancel cancelOk endsCall = (.ok (), t) := by
  unfold Subscriber.cancel
  dsimp only
  rcases s.sub.mServiceStatus.cancel_cases s.bus cancelOk with
    ⟨_, hcancel⟩ | ⟨_, _, _, hcancel⟩ | ⟨hcookie, hrefused, _⟩
  · exact ⟨_, by rw [hcancel]⟩
  · exact ⟨_, by rw [hcancel]⟩
  · rw [hrefused] at h
    exact absurd h (by simp [hcookie])

/-- A cancel that goes through ends with `cancelSubscription`, and no watch is new before. -/
theorem cancel_ok_eq {s t : Subscriber} {cancelOk endsCall : Bool}
    (h : s.cancel cancelOk endsCall = (.ok (), t)) :
    ∃ u : Subscriber, t = u.cancelSubscription endsCall ∧ u.calls = s.calls ∧
      u.sub.mSubscriptionCall = s.sub.mSubscriptionCall ∧ u.sub.mHandle = s.sub.mHandle ∧
      (u.bus.registrations ≠ [] → s.bus.registrations ≠ []) := by
  unfold Subscriber.cancel at h
  dsimp only at h
  rcases s.sub.mServiceStatus.cancel_cases s.bus cancelOk with
    ⟨_, hcancel⟩ | ⟨cookie, _, _, hcancel⟩ | ⟨_, _, hcancel⟩
  · rw [hcancel] at h
    exact ⟨_, (Prod.mk.inj h).2.symm, rfl, rfl, rfl, id⟩
  · rw [hcancel] at h
    refine ⟨_, (Prod.mk.inj h).2.symm, rfl, rfl, rfl, ?_⟩
    intro hsome hnone
    exact hsome (by simp [StatusBus.unregister, hnone])
  · rw [hcancel] at h
    cases (Prod.mk.inj h).1

/-- A registration whose callback throws leaves the `subscribe`, and a watch on the bus. -/
theorem step_thrown {pf : Platform} {s t : Subscriber} {e : Event} (hgo : s.WatchLetGo e)
    (hthrows : e.throws = true) (hstep : step pf s e = some t) :
    s.stops pf e ∧ t.bus.registrations ≠ [] := by
  cases e with
  | subscribe handle uri params handler cancelOk endsCall registering =>
      obtain rfl := Option.some.inj hstep
      rcases Bool.and_eq_true_iff.mp hthrows with ⟨hthrown, hcomes⟩
      rcases exists_cancel_ok (s := { s with subscribes := s.subscribes + 1 }) cancelOk endsCall hgo
        with ⟨u, hu⟩
      have hcookie := cancel_ok_cookie hu
      rw [stops, subscribe_of_cancel pf handle uri params handler hu]
      rcases afterCancel_cases pf handle uri params handler with
        ⟨hnot, _⟩ | ⟨hnot, _⟩ | ⟨_, handle', handler', name, hwatch⟩
      · exact absurd (hcomes.symm.trans hnot) (by simp)
      · exact absurd (hcomes.symm.trans hnot) (by simp)
      · rcases watch_of_no_cookie (s := u.prepared pf handle' uri params handler') hcookie handle'
          name cancelOk registering with ⟨status, _, hwatched⟩
        rw [hwatch, hwatched]
        cases registering with
        | failed | registered => cases hthrown
        | threw early => exact ⟨by simp [Registering.result], by simp [StatusBus.register]⟩
  | cancel | notify => cases hthrows

namespace Held

variable {pf : Platform} {s t : Subscriber} {e : Event}

/-- Behind a cancel that goes through there is no call. -/
theorem cancel (h : s.Held) {cancelOk : Bool} (hcancel : s.cancel cancelOk true = (.ok (), t)) :
    t.Held ∧ t.calls = [] ∧ t.sub.mSubscriptionCall = LSMESSAGE_TOKEN_INVALID := by
  have hcookie := cancel_ok_cookie hcancel
  rcases cancel_ok_eq hcancel with ⟨u, rfl, hcalls, htoken, hhandle, hwatch⟩
  have hknown : u.KnowsCall := by
    rw [KnowsCall, hcalls, htoken, hhandle]
    exact h.call
  rcases hknown.cancelSubscription with ⟨hnone, hsub, hbus, _⟩
  have hinvalid :
      (u.cancelSubscription true).sub.mSubscriptionCall = LSMESSAGE_TOKEN_INVALID := by
    rw [hsub]
  refine ⟨⟨.inl ⟨hnone, hinvalid⟩, fun hsome => absurd hcookie hsome, ?_⟩, hnone, hinvalid⟩
  rw [hbus, hsub]
  intro hsome
  rw [hhandle]
  exact h.handle (hwatch hsome)

theorem subscribe (h : s.Held) {cancelOk : Bool} (handle : Option LSHandle) (uri : String)
    (params : JValue) (handler : Option Nat) (registering : Registering)
    (hgo : s.sub.mServiceStatus.mCookie = none ∨ cancelOk = true) :
    (s.subscribe pf handle uri params handler cancelOk true registering).2.Held := by
  have hcounted : Held { s with subscribes := s.subscribes + 1 } := ⟨h.call, h.watch, h.handle⟩
  rcases exists_cancel_ok (s := { s with subscribes := s.subscribes + 1 }) cancelOk true hgo with
    ⟨u, hu⟩
  have hcookie := cancel_ok_cookie hu
  rcases hcounted.cancel hu with ⟨hheld, hcalls, htoken⟩
  rw [subscribe_of_cancel pf handle uri params handler hu]
  rcases afterCancel_cases pf handle uri params handler with
    ⟨_, e, hrefused⟩ | ⟨_, handle', handler', hthrown⟩ | ⟨_, handle', handler', name, hwatch⟩
  · rw [hrefused]
    exact hheld
  · rw [hthrown]
    exact ⟨.inl ⟨hcalls, htoken⟩, fun hsome => absurd hcookie hsome, fun _ => by simp [prepared]⟩
  · rcases watch_of_no_cookie (s := u.prepared pf handle' uri params handler') hcookie handle' name
      cancelOk registering with ⟨status, hsome, hwatched⟩
    rw [hwatch, hwatched]
    refine ⟨.inl ⟨hcalls, htoken⟩, ?_, fun _ => by simp [prepared]⟩
    intro hset
    simp [hsome hset, StatusBus.register]

theorem step (h : s.Held) (hends : e.endsCall = true)
    (hstep : Subscriber.step pf s e = some t) : t.Held := by
  by_cases hgo : s.WatchLetGo e
  · cases e with
    | subscribe handle uri params handler cancelOk endsCall registering =>
        obtain rfl : endsCall = true := hends
        obtain rfl := Option.some.inj hstep
        exact h.subscribe handle uri params handler registering hgo
    | cancel cancelOk endsCall =>
        obtain rfl : endsCall = true := hends
        obtain rfl := Option.some.inj hstep
        rcases exists_cancel_ok cancelOk true hgo with ⟨u, hu⟩
        have hheld := (h.cancel hu).1
        rw [hu]
        exact hheld
    | notify cookie serviceUp outcome endsCall =>
        obtain rfl : endsCall = true := hends
        simp only [Subscriber.step] at hstep
        split at hstep
        · rename_i hguard
          obtain rfl := Option.some.inj hstep
          rcases s.onServiceStatusResponse_frame serviceUp outcome true with
            ⟨hbus, hstatus, hhandle⟩
          refine ⟨h.call.notified serviceUp (Bool.and_eq_true_iff.mp hguard).2, ?_, ?_⟩
          · rw [hbus, hstatus]
            exact h.watch
          · rw [hbus, hhandle]
            exact h.handle
        · cases hstep
  · rcases step_refused hgo hstep with ⟨_, hcalls, hbus, hsub⟩
    refine ⟨?_, ?_, ?_⟩
    · rw [KnowsCall, hcalls, hsub]
      exact h.call
    · rw [hbus, hsub]
      exact h.watch
    · rw [hbus, hsub]
      exact h.handle

theorem run {events : List Event} (h : Transition.run (Subscriber.step pf) init events = some s)
    (hends : ∀ e ∈ events, e.endsCall = true) : s.Held := by
  refine run_induction (P := fun _ t => t.Held) (C := fun _ e => e.endsCall = true) ?_
    (fun _ _ _ _ _ hm he hn => hm.step he hn) (Meets.of_forall fun e he _ => hends e he) h
  exact ⟨.inl ⟨rfl, rfl⟩, fun hsome => absurd rfl hsome, fun hsome => absurd rfl hsome⟩

/-- With a watch on the bus there is a call, or the next notification makes one. -/
theorem not_silent (h : s.Held) (hwatch : s.bus.registrations ≠ []) : ¬ s.Silent pf := by
  intro hsilent
  have hcalls : s.calls = [] := hsilent [] s (by simp) rfl
  have htoken : s.sub.mSubscriptionCall = LSMESSAGE_TOKEN_INVALID := by
    rcases h.call with ⟨_, htoken⟩ | ⟨c, hc, _⟩
    · exact htoken
    · rw [hcalls] at hc
      cases hc
  rcases Option.ne_none_iff_exists'.mp (h.handle hwatch) with ⟨handle, hhandle⟩
  rcases List.exists_mem_of_ne_nil _ hwatch with ⟨r, hr⟩
  have hguard : ((s.bus.registrations.any fun r' => r'.cookie == r.cookie) &&
      s.freshToken (some 1)) = true := by
    have hany : (s.bus.registrations.any fun r' => r'.cookie == r.cookie) = true :=
      List.any_eq_true.mpr ⟨r, hr, beq_self_eq_true r.cookie⟩
    simp [hany, freshToken, hcalls, LSMESSAGE_TOKEN_INVALID]
  have hnotified : Subscriber.step pf s (.notify r.cookie true (some 1) true) =
      some (s.onServiceStatusResponse true (some 1) true).2 := by
    simp only [Subscriber.step, hguard, if_true]
  have hnone := hsilent [.notify r.cookie true (some 1) true] _ (by simp [Event.isSubscribe])
    (run_cons_iff.mpr ⟨_, hnotified, rfl⟩)
  simp [onServiceStatusResponse, htoken, hhandle] at hnone

/-- An exit that leaves the object silent is a clean one. -/
theorem exitsClean (h : s.Held) (hends : e.endsCall = true)
    (hstep : Subscriber.step pf s e = some t) (hsilent : s.stops pf e → t.Silent pf) :
    s.ExitsClean e := by
  have hheld := h.step hends hstep
  have hgo : s.WatchLetGo e := by
    by_contra hgo
    have hcookie : s.sub.mServiceStatus.mCookie ≠ none := fun hnone => hgo (.inl hnone)
    rcases step_refused hgo hstep with ⟨hstops, _, hbus, _⟩
    exact hheld.not_silent (hbus ▸ h.watch hcookie) (hsilent hstops)
  refine ⟨hgo, ?_⟩
  by_contra hthrows
  rcases step_thrown hgo (Bool.not_eq_false _ ▸ hthrows) hstep with ⟨hstops, hwatch⟩
  exact hheld.not_silent hwatch (hsilent hstops)

end Held

theorem tracked_of_clean_run {pf : Platform} {events : List Event} {s : Subscriber}
    (h : run (step pf) init events = some s) (hends : ∀ e ∈ events, e.endsCall = true)
    (hclean : Meets (step pf) ExitsClean init events) : s.Tracked := by
  refine run_induction (P := fun _ t => t.Tracked)
    (C := fun m e => m.ExitsClean e ∧ e.endsCall = true) ⟨rfl, .inl ⟨rfl, rfl⟩⟩
    (fun _ _ _ _ _ hm he hn => (hm.step_clean he.1 he.2 hn).1) ?_ h
  intro pre e post m hsplit hm
  exact ⟨hclean pre e post m hsplit hm, hends e (by simp [hsplit])⟩

/-- For every run in which `LSCallCancel` ends the calls it is asked to: every exit by
`cancel`, or by a `subscribe` that throws, leaves the object silent exactly when the bus lets
go of the watch wherever there is one and no callback throws out of a registration. -/
theorem exits_silent_iff {pf : Platform} {events : List Event} {s : Subscriber}
    (h : run (step pf) init events = some s) (hends : ∀ e ∈ events, e.endsCall = true) :
    (∀ pre e post m n, events = pre ++ e :: post → run (step pf) init pre = some m →
      step pf m e = some n → m.stops pf e → n.Silent pf) ↔
      Meets (step pf) ExitsClean init events := by
  have hbefore {pre post : List Event} {e : Event} (hsplit : events = pre ++ e :: post) :
      ∀ e' ∈ pre, e'.endsCall = true := fun e' he' => hends e' (by simp [hsplit, he'])
  constructor
  · intro hsilent pre e post m hsplit hm
    rcases run_next (hsplit ▸ h) hm with ⟨n, hn, _⟩
    exact (Held.run hm (hbefore hsplit)).exitsClean (hends e (by simp [hsplit])) hn
      (hsilent pre e post m n hsplit hm hn)
  · intro hclean pre e post m n hsplit hm hn hstops
    have hpre : Meets (step pf) ExitsClean init pre := Meets.prefix (hsplit ▸ hclean)
    have htracked := tracked_of_clean_run hm (hbefore hsplit) hpre
    have hstep := htracked.step_clean (hclean pre e post m hsplit hm)
      (hends e (by simp [hsplit])) hn
    exact (hstep.2.2 hstops).silent

theorem exits_silent_of_one :
    let events : List Event :=
      [.subscribe (some 1) "luna://service/a" (.valid (.object [])) (some 0) true true .registered,
        .notify 0 true (some 5) true, .cancel true true, .cancel false true]
    (∀ pre e post m n, events = pre ++ e :: post → run (step .ofEmptyObject) init pre = some m →
      step .ofEmptyObject m e = some n → m.stops .ofEmptyObject e → n.Silent .ofEmptyObject) ↔
      Meets (step .ofEmptyObject) ExitsClean init events :=
  exits_silent_iff rfl (by decide)

/-- A cancel that throws; and a `subscribe` that throws as the service is up at the
registration and the call fails, with a cancel behind it that goes through and does not reach
the watch. In both the next notification makes a call without parameters, whose responses
have no handler. -/
theorem exits_not_silent :
    let subscribe (registering : Registering) : Event :=
      .subscribe (some 1) "luna://service/a" (.valid (.object [])) (some 0) true true registering
    (∃ m n t, run (step .ofEmptyObject) init [subscribe .registered] = some m ∧
      step .ofEmptyObject m (.cancel false true) = some n ∧
      (m.cancel false true).1 = .error (.status .cancelServerStatus) ∧
      ¬ n.Silent .ofEmptyObject ∧
      step .ofEmptyObject n (.notify 0 true (some 5) true) = some t ∧
      t.calls = [⟨1, 5, "luna://service/a", "", 1⟩] ∧ t.sub.mResultHandler = none) ∧
    ∃ m n t, run (step .ofEmptyObject) init [subscribe (.threw false)] = some m ∧
      init.stops .ofEmptyObject (subscribe (.threw false)) ∧ ¬ m.Silent .ofEmptyObject ∧
      step .ofEmptyObject m (.cancel true true) = some n ∧ (m.cancel true true).1 = .ok () ∧
      ¬ n.Silent .ofEmptyObject ∧
      step .ofEmptyObject n (.notify 0 true (some 5) true) = some t ∧
      t.calls = [⟨1, 5, "luna://service/a", "", 1⟩] ∧ t.sub.mResultHandler = none := by
  have hnotify : ∀ e ∈ [Event.notify 0 true (some 5) true], e.isSubscribe = false := by decide
  refine ⟨⟨_, _, _, rfl, rfl, rfl, ?_, rfl, rfl, rfl⟩,
    ⟨_, _, _, rfl, ?_, ?_, rfl, rfl, ?_, rfl, rfl, rfl⟩⟩
  · exact fun hsilent => absurd (hsilent _ _ hnotify rfl) (by decide)
  · exact fun hok => nomatch hok
  · exact fun hsilent => absurd (hsilent _ _ hnotify rfl) (by decide)
  · exact fun hsilent => absurd (hsilent _ _ hnotify rfl) (by decide)

end Subscriber

end LSHelpers
