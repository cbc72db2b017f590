import LSHelpers.Status.PersistentSubscription
import LSHelpers.Transition.Run

/-!
# The outstanding call of a persistent subscription

As long as the bus lets go of the watches and ends the calls it is asked to, and no callback
throws out of its registration, a persistent subscription has at most one call outstanding,
knows its token, and has none when it should have none.
-/

namespace LSHelpers

namespace Subscriber

open Transition

/-- There is no call, or one, of which the object has the handle and the token. -/
def KnowsCall (s : Subscriber) : Prop :=
  (s.calls = [] ∧ s.sub.mSubscriptionCall = LSMESSAGE_TOKEN_INVALID) ∨
    ∃ c, s.calls = [c] ∧ s.sub.mSubscriptionCall = c.token ∧
      c.token ≠ LSMESSAGE_TOKEN_INVALID ∧ s.sub.mHandle = some c.handle

/-- The object knows its call and its watch. -/
structure Tracked (s : Subscriber) : Prop where
  watch : s.bus.registrations.map Registration.cookie = s.sub.mServiceStatus.mCookie.toList
  call : s.KnowsCall

/-- No call and no watch. -/
structure Idle (s : Subscriber) : Prop where
  calls : s.calls = []
  token : s.sub.mSubscriptionCall = LSMESSAGE_TOKEN_INVALID
  registrations : s.bus.registrations = []
  cookie : s.sub.mServiceStatus.mCookie = none

theorem Idle.tracked {s : Subscriber} (h : s.Idle) : s.Tracked where
  watch := by simp [h.registrations, h.cookie]
  call := .inl ⟨h.calls, h.token⟩

/-! ## The operations -/

/-- The object with what a call will need. -/
def prepared (pf : Platform) (s : Subscriber) (handle : LSHandle) (uri : String) (params : JValue)
    (handler : Nat) : Subscriber :=
  { s with
    sub :=
      { s.sub with
        mHandle := some handle
        mUri := uri
        mParams := pf.serialize params
        mResultHandler := some handler } }

section

variable (pf : Platform) (handle : Option LSHandle) (uri : String) (params : JValue)
  (handler : Option Nat)

/-- What `subscribe` does once its cancel has gone through. -/
def afterCancel (s : Subscriber) (cancelOk : Bool) (registering : Registering) :
    Except SubscribeError Unit × Subscriber :=
  match handle, handler with
  | none, _ => (.error .nullHandle, s)
  | some _, none => (.error .nullHandler, s)
  | some handle, some handler =>
      if !params.isValid then (.error .invalidParams, s)
      else
        let first_slash := find uri.toList "://".toList 0
        let second_slash := find uri.toList "/".toList (sizeT (first_slash + 3))
        if first_slash == npos || second_slash == npos then (.error .invalidUri, s)
        else
          let s := s.prepared pf handle uri params handler
          match substr uri.toList (sizeT (first_slash + 3))
              (sizeT (second_slash - first_slash - 3)) with
          | none => (.error .outOfRange, s)
          | some serviceName => s.watch handle serviceName cancelOk registering

theorem subscribe_of_cancel {s t : Subscriber} {cancelOk endsCall : Bool}
    (h : cancel { s with subscribes := s.subscribes + 1 } cancelOk endsCall = (.ok (), t))
    (registering : Registering) :
    s.subscribe pf handle uri params handler cancelOk endsCall registering =
      t.afterCancel pf handle uri params handler cancelOk registering := by
  unfold subscribe
  rw [h]
  rfl

/-- The arguments are such that `subscribe` comes to the registration, if its cancel goes
through. -/
def registers : Bool :=
  handle.isSome && handler.isSome && params.isValid && (serviceName uri.toList).isOk

/-- An argument is refused, or the object is prepared and then `substr` throws or the watch is
set. Which of them depends on the arguments alone. -/
theorem afterCancel_cases :
    (registers handle uri params handler = false ∧ ∃ e, ∀ s cancelOk registering,
      afterCancel pf handle uri params handler s cancelOk registering = (.error e, s)) ∨
    (registers handle uri params handler = false ∧ ∃ handle' handler', ∀ s cancelOk registering,
      afterCancel pf handle uri params handler s cancelOk registering =
        (.error .outOfRange, s.prepared pf handle' uri params handler')) ∨
    (registers handle uri params handler = true ∧
      ∃ handle' handler' serviceName, ∀ s cancelOk registering,
        afterCancel pf handle uri params handler s cancelOk registering =
          (s.prepared pf handle' uri params handler').watch handle' serviceName cancelOk
            registering) := by
  unfold afterCancel registers serviceName
  cases handle with
  | none => exact .inl ⟨rfl, _, fun _ _ _ => rfl⟩
  | some handle =>
      cases handler with
      | none => exact .inl ⟨rfl, _, fun _ _ _ => rfl⟩
      | some handler =>
          dsimp only
          cases hparams : params.isValid with
          | false => exact .inl ⟨rfl, _, fun _ _ _ => rfl⟩
          | true =>
              simp only [Bool.not_true, Bool.false_eq_true, if_false]
              split_ifs
              · exact .inl ⟨rfl, _, fun _ _ _ => rfl⟩
              · right
                cases substr uri.toList _ _ with
                | none => exact .inl ⟨rfl, _, _, fun _ _ _ => rfl⟩
                | some serviceName => exact .inr ⟨rfl, _, _, _, fun _ _ _ => rfl⟩

end

/-- The call is cancelled on the handle it was issued on. -/
theorem KnowsCall.cancelSubscription {s : Subscriber} (h : s.KnowsCall) :
    (s.cancelSubscription true).calls = [] ∧
      (s.cancelSubscription true).sub =
        { s.sub with mSubscriptionCall := LSMESSAGE_TOKEN_INVALID } ∧
      (s.cancelSubscription true).bus = s.bus ∧
      (s.cancelSubscription true).subscribes = s.subscribes := by
  unfold Subscriber.cancelSubscription
  rcases h with ⟨hcalls, htoken⟩ | ⟨c, hcalls, htoken, hvalid, hhandle⟩
  · have hnone : (s.sub.mSubscriptionCall != LSMESSAGE_TOKEN_INVALID) = false := by simp [htoken]
    rw [hnone]
    exact ⟨hcalls, by rw [← htoken]; rfl, rfl, rfl⟩
  · simp [htoken, hvalid, lsCallCancel, hcalls, hhandle]

theorem Tracked.cancel {s : Subscriber} (h : s.Tracked) :
    ∃ t, s.cancel true true = (.ok (), t) ∧ t.Idle ∧ t.subscribes = s.subscribes := by
  unfold Subscriber.cancel ServerStatus.cancel
  dsimp only
  cases hcookie : s.sub.mServiceStatus.mCookie with
  | none =>
      have hnone : s.bus.registrations = [] := by simpa [hcookie] using h.watch
      obtain ⟨hcalls, hsub, hbus, hsubscribes⟩ := KnowsCall.cancelSubscription
        (s := { s with sub := { s.sub with mParams := "", mResultHandler := none } }) h.call
      refine ⟨_, rfl, ⟨hcalls, ?_, ?_, ?_⟩, hsubscribes⟩
      · rw [hsub]
      · rw [hbus, hnone]
      · rw [hsub]
        exact hcookie
  | some cookie =>
      have hone : s.bus.registrations.map Registration.cookie = [cookie] := by
        simpa [hcookie] using h.watch
      have hnone : (s.bus.unregister cookie).registrations = [] := by
        rcases List.map_eq_singleton_iff.mp hone with ⟨r, hr, rfl⟩
        simp [StatusBus.unregister, hr]
      obtain ⟨hcalls, hsub, hbus, hsubscribes⟩ := KnowsCall.cancelSubscription
        (s :=
          { s with
            sub :=
              { s.sub with
                mParams := ""
                mResultHandler := none
                mServiceStatus :=
                  { s.sub.mServiceStatus with mCookie := none, mCallback := none } }
            bus := s.bus.unregister cookie }) h.call
      refine ⟨_, rfl, ⟨hcalls, ?_, ?_, ?_⟩, hsubscribes⟩
      · rw [hsub]
      · rw [hbus, hnone]
      · rw [hsub]

/-- An idle object takes a watch, or stays idle where the registration fails. -/
theorem Idle.watch {s : Subscriber} (h : s.Idle) (handle : LSHandle) (serviceName : List Char)
    (cancelOk : Bool) {registering : Registering} (hreturns : registering.throws = false) :
    let r := s.watch handle serviceName cancelOk registering
    r.2.calls = [] ∧ r.2.Tracked ∧ (r.1 ≠ .ok () → r.2.Idle) := by
  cases registering with
  | failed =>
      have hidle : (s.watch handle serviceName cancelOk .failed).2.Idle := by
        constructor <;>
          simp [Subscriber.watch, ServerStatus.set, ServerStatus.cancel, h.cookie, h.calls, h.token,
            h.registrations]
      exact ⟨hidle.calls, hidle.tracked, fun _ => hidle⟩
  | registered =>
      refine ⟨?_, ⟨?_, .inl ⟨?_, ?_⟩⟩, fun hthrown => absurd ?_ hthrown⟩ <;>
        simp [Subscriber.watch, ServerStatus.set, ServerStatus.cancel, StatusBus.register, h.cookie,
          h.calls, h.token, h.registrations]
  | threw early => cases hreturns

/-- A `subscribe` ends the call there is, and stays idle if it throws. -/
theorem Tracked.subscribe (pf : Platform) {s : Subscriber} (h : s.Tracked)
    (handle : Option LSHandle) (uri : String) (params : JValue) (handler : Option Nat)
    {registering : Registering}
    (hreturns : (registering.throws && registers handle uri params handler) = false) :
    let r := s.subscribe pf handle uri params handler true true registering
    r.2.calls = [] ∧ r.2.Tracked ∧ (r.1 ≠ .ok () → r.2.Idle) := by
  obtain ⟨t, ht, hidle, _⟩ :=
    Tracked.cancel (s := { s with subscribes := s.subscribes + 1 }) ⟨h.watch, h.call⟩
  have hready (handle : LSHandle) (handler : Nat) :
      (t.prepared pf handle uri params handler).Idle :=
    ⟨hidle.calls, hidle.token, hidle.registrations, hidle.cookie⟩
  rw [subscribe_of_cancel pf handle uri params handler ht]
  rcases afterCancel_cases pf handle uri params handler with
    ⟨_, e, hrefused⟩ | ⟨_, handle', handler', hthrown⟩ |
      ⟨hcomes, handle', handler', serviceName, hwatch⟩
  · rw [hrefused]
    exact ⟨hidle.calls, hidle.tracked, fun _ => hidle⟩
  · rw [hthrown]
    have hidle' := hready handle' handler'
    exact ⟨hidle'.calls, hidle'.tracked, fun _ => hidle'⟩
  · rw [hwatch]
    rw [hcomes, Bool.and_true] at hreturns
    exact (hready handle' handler').watch handle' serviceName true hreturns

/-! ## A step -/

/-- The outstanding call is the one the object would make now. -/
def Current (s : Subscriber) : Prop :=
  ∀ c ∈ s.calls, c.uri = s.sub.mUri ∧ c.params = s.sub.mParams ∧ c.epoch = s.subscribes

def Event.isUp : Event → Bool
  | .notify _ serviceUp _ _ => serviceUp
  | _ => false

def Event.isSubscribe : Event → Bool
  | .subscribe .. => true
  | _ => false

/-- The bus lets go of the watch, where the event asks it to. -/
def Event.cancelOk : Event → Bool
  | .subscribe _ _ _ _ cancelOk _ _ => cancelOk
  | .cancel cancelOk _ => cancelOk
  | .notify .. => true

/-- `LSCallCancel` ends the call, where the event asks it to. -/
def Event.endsCall : Event → Bool
  | .subscribe _ _ _ _ _ endsCall _ => endsCall
  | .cancel _ endsCall => endsCall
  | .notify _ _ _ endsCall => endsCall

/-- The arguments come to a registration, and the callback throws out of it. -/
def Event.throws : Event → Bool
  | .subscribe handle uri params handler _ _ registering =>
      registering.throws && registers handle uri params handler
  | _ => false

/-- The watch is let go of, the call is ended, and the registration returns. -/
def Event.Fair (e : Event) : Prop := e.cancelOk = true ∧ e.endsCall = true ∧ e.throws = false

instance : DecidablePred Event.Fair := fun _ => inferInstanceAs (Decidable (_ ∧ _ ∧ _))

/-- The event leaves the object without a purpose: a cancel, or a `subscribe` that throws. -/
def stops (pf : Platform) (s : Subscriber) : Event → Prop
  | .subscribe handle uri params handler cancelOk endsCall registering =>
      (s.subscribe pf handle uri params handler cancelOk endsCall registering).1 ≠ .ok ()
  | .cancel .. => True
  | .notify .. => False

theorem onServiceStatusResponse_frame (s : Subscriber) (serviceUp : Bool)
    (outcome : Option LSMessageToken) (endsCall : Bool) :
    let t := (s.onServiceStatusResponse serviceUp outcome endsCall).2
    t.bus = s.bus ∧ t.sub.mServiceStatus = s.sub.mServiceStatus ∧
      t.sub.mHandle = s.sub.mHandle := by
  unfold onServiceStatusResponse cancelSubscription lsCallCancel
  dsimp only
  split
  · split <;> exact ⟨rfl, rfl, rfl⟩
  · split
    · split
      · split <;> exact ⟨rfl, rfl, rfl⟩
      · exact ⟨rfl, rfl, rfl⟩
    · exact ⟨rfl, rfl, rfl⟩

/-- An up notification makes the call that is missing. -/
theorem KnowsCall.serviceUp {s : Subscriber} (h : s.KnowsCall)
    {outcome : Option LSMessageToken} (hfresh : s.freshToken outcome = true) (endsCall : Bool) :
    (s.onServiceStatusResponse true outcome endsCall).2.KnowsCall ∧
      (s.Current → (s.onServiceStatusResponse true outcome endsCall).2.Current) := by
  unfold onServiceStatusResponse
  simp only [Bool.true_and, Bool.not_true, Bool.false_and, Bool.false_eq_true, if_false]
  split_ifs with htoken
  · split
    · rename_i handle token hhandle
      have hcalls : s.calls = [] := by
        rcases h with ⟨hcalls, _⟩ | ⟨c, _, hc, hvalid, _⟩
        · exact hcalls
        · rw [beq_iff_eq] at htoken
          exact absurd (hc.symm.trans htoken) hvalid
      have hvalid : token ≠ LSMESSAGE_TOKEN_INVALID := by
        simp only [freshToken, Bool.and_eq_true, bne_iff_ne] at hfresh
        exact hfresh.1
      refine ⟨.inr ⟨⟨handle, token, s.sub.mUri, s.sub.mParams, s.subscribes⟩,
        by simp [hcalls], rfl, hvalid, hhandle⟩, ?_⟩
      intro _ c hc
      simp only [hcalls, List.nil_append, List.mem_singleton] at hc
      subst hc
      exact ⟨rfl, rfl, rfl⟩
    · exact ⟨h, id⟩
  · exact ⟨h, id⟩

/-- A down notification ends the call there is. -/
theorem KnowsCall.serviceDown {s : Subscriber} (h : s.KnowsCall)
    (outcome : Option LSMessageToken) :
    (s.onServiceStatusResponse false outcome true).2.KnowsCall ∧
      (s.onServiceStatusResponse false outcome true).2.calls = [] := by
  unfold onServiceStatusResponse
  simp only [Bool.false_and, Bool.false_eq_true, if_false, Bool.not_false, Bool.true_and]
  split_ifs with htoken
  · rcases h.cancelSubscription with ⟨hcalls, hsub, _, _⟩
    refine ⟨.inl ⟨hcalls, ?_⟩, hcalls⟩
    rw [hsub]
  · rw [bne_iff_ne, not_not] at htoken
    rcases h with ⟨hcalls, _⟩ | ⟨c, _, hc, hvalid, _⟩
    · exact ⟨.inl ⟨hcalls, htoken⟩, hcalls⟩
    · exact absurd (hc.symm.trans htoken) hvalid

/-- A notification that may come keeps the call known. -/
theorem KnowsCall.notified {s : Subscriber} (h : s.KnowsCall) (serviceUp : Bool)
    {outcome : Option LSMessageToken} (hfresh : s.freshToken outcome = true) :
    (s.onServiceStatusResponse serviceUp outcome true).2.KnowsCall := by
  cases serviceUp with
  | true => exact (h.serviceUp hfresh true).1
  | false => exact (h.serviceDown outcome).1

/-- Every event keeps the call tracked, and current if it was, every event but an up
notification leaves none, and one that stops the object leaves it idle. -/
theorem Tracked.step {pf : Platform} {s t : Subscriber} {e : Event} (h : s.Tracked)
    (hfair : e.Fair) (hstep : Subscriber.step pf s e = some t) :
    t.Tracked ∧ (s.Current → t.Current) ∧ (e.isUp = false → t.calls = []) ∧
      (s.stops pf e → t.Idle) := by
  have hnone {t : Subscriber} (hcalls : t.calls = []) : t.Current := by simp [Current, hcalls]
  rcases hfair with ⟨hok, hends, hreturns⟩
  cases e with
  | subscribe handle uri params handler cancelOk endsCall registering =>
      obtain rfl := Option.some.inj hstep
      obtain rfl : cancelOk = true := hok
      obtain rfl : endsCall = true := hends
      rcases h.subscribe pf handle uri params handler hreturns with ⟨hcalls, htracked, hidle⟩
      exact ⟨htracked, fun _ => hnone hcalls, fun _ => hcalls, hidle⟩
  | cancel cancelOk endsCall =>
      obtain rfl := Option.some.inj hstep
      obtain rfl : cancelOk = true := hok
      obtain rfl : endsCall = true := hends
      rcases h.cancel with ⟨t, ht, hidle, _⟩
      rw [ht]
      exact ⟨hidle.tracked, fun _ => hnone hidle.calls, fun _ => hidle.calls, fun _ => hidle⟩
  | notify cookie serviceUp outcome endsCall =>
      obtain rfl : endsCall = true := hends
      simp only [Subscriber.step] at hstep
      split at hstep
      · rename_i hguard
        obtain rfl := Option.some.inj hstep
        have hfresh := (Bool.and_eq_true_iff.mp hguard).2
        rcases s.onServiceStatusResponse_frame serviceUp outcome true with ⟨hbus, hstatus, _⟩
        refine ⟨⟨?_, h.call.notified serviceUp hfresh⟩, ?_, ?_, False.elim⟩
        · rw [hbus, hstatus]
          exact h.watch
        · cases serviceUp with
          | true => exact (h.call.serviceUp hfresh true).2
          | false => exact fun _ => hnone (h.call.serviceDown outcome).2
        · intro hdown
          obtain rfl : serviceUp = false := hdown
          exact (h.call.serviceDown outcome).2
      · cases hstep

/-- An idle object has nothing to cancel. -/
theorem Idle.cancel {s : Subscriber} (h : s.Idle) (cancelOk endsCall : Bool) :
    s.cancel cancelOk endsCall =
      (.ok (), { s with sub := { s.sub with mParams := "", mResultHandler := none } }) := by
  simp [Subscriber.cancel, ServerStatus.cancel, Subscriber.cancelSubscription, h.cookie, h.token]

/-- Without a `subscribe` nothing happens to an idle object. -/
theorem Idle.step {pf : Platform} {s t : Subscriber} {e : Event} (h : s.Idle)
    (he : e.isSubscribe = false) (hstep : Subscriber.step pf s e = some t) : t.Idle := by
  cases e with
  | subscribe => cases he
  | cancel cancelOk endsCall =>
      obtain rfl := Option.some.inj hstep
      rw [h.cancel]
      exact ⟨h.calls, h.token, h.registrations, h.cookie⟩
  | notify cookie serviceUp outcome endsCall => simp [Subscriber.step, h.registrations] at hstep

/-! ## A whole run -/

/-- What is asked of a persistent subscription after a run. -/
structure OneSubscription (pf : Platform) (events : List Event) (s : Subscriber) : Prop where
  atMostOne : s.calls.length ≤ 1
  token : s.sub.mSubscriptionCall =
    (s.calls.head?.map Subscription.token).getD LSMESSAGE_TOKEN_INVALID
  current : ∀ c ∈ s.calls, c.token ≠ LSMESSAGE_TOKEN_INVALID ∧ s.sub.mHandle = some c.handle ∧
    c.uri = s.sub.mUri ∧ c.params = s.sub.mParams ∧ c.epoch = s.subscribes
  afterUp : s.calls ≠ [] → ∃ pre e, events = pre ++ [e] ∧ e.isUp = true
  stopped : ∀ pre e post m, events = pre ++ e :: post → run (step pf) init pre = some m →
    m.stops pf e → (∀ e' ∈ post, e'.isSubscribe = false) → s.calls = []

theorem tracked_of_run {pf : Platform} {events : List Event} {s : Subscriber}
    (h : run (Subscriber.step pf) init events = some s) (hfair : ∀ e ∈ events, e.Fair) :
    s.Tracked ∧ s.Current ∧ (s.calls ≠ [] → ∃ pre e, events = pre ++ [e] ∧ e.isUp = true) := by
  refine run_induction (C := fun _ e => e.Fair) (P := fun events s => s.Tracked ∧
    s.Current ∧ (s.calls ≠ [] → ∃ pre e, events = pre ++ [e] ∧ e.isUp = true)) ?_ ?_
    (Meets.of_forall fun e he _ => hfair e he) h
  · exact ⟨⟨rfl, .inl ⟨rfl, rfl⟩⟩, by simp [Current, init], fun hcalls => absurd rfl hcalls⟩
  · intro events e m n _ hm hcancel hn
    rcases hm with ⟨htracked, hcurrent, _⟩
    rcases htracked.step hcancel hn with ⟨htracked', hcurrent', hnone, _⟩
    refine ⟨htracked', hcurrent' hcurrent, fun hcalls => ⟨events, e, rfl, ?_⟩⟩
    by_contra hup
    exact hcalls (hnone (by simpa using hup))

/-- For every run in which the bus lets go of the watches and ends the calls it is asked to,
and every registration returns. -/
theorem oneSubscription_of_run (pf : Platform) (events : List Event) (s : Subscriber)
    (h : run (Subscriber.step pf) init events = some s) (hfair : ∀ e ∈ events, e.Fair) :
    OneSubscription pf events s := by
  rcases tracked_of_run h hfair with ⟨htracked, hcurrent, hup⟩
  refine ⟨?_, ?_, ?_, hup, ?_⟩
  · rcases htracked.call with ⟨hcalls, _⟩ | ⟨c, hcalls, _⟩ <;> simp [hcalls]
  · rcases htracked.call with ⟨hcalls, htoken⟩ | ⟨c, hcalls, htoken, _⟩ <;> simp [hcalls, htoken]
  · intro c hc
    rcases htracked.call with ⟨hcalls, _⟩ | ⟨c', hcalls, _, hvalid, hhandle⟩
    · simp [hcalls] at hc
    · obtain rfl : c = c' := by simpa [hcalls] using hc
      exact ⟨hvalid, hhandle, hcurrent c hc⟩
  · intro pre e post m hsplit hm hstops hpost
    subst hsplit
    rcases run_next h hm with ⟨n, hn, hrest⟩
    have htracked := (tracked_of_run hm fun x hx => hfair x (by simp [hx])).1
    have hidle : n.Idle := (htracked.step (hfair e (by simp)) hn).2.2.2 hstops
    have hidle' : s.Idle := run_induction (P := fun _ s => s.Idle)
      (C := fun _ e' => e'.isSubscribe = false) hidle
      (fun _ _ _ _ _ hx he hy => hx.step he hy)
      (Meets.of_forall fun e' he' _ => hpost e' he') hrest
    exact hidle'.calls

/-- Up twice, down, up, and another subscription on another handle. -/
theorem oneSubscription_of_run_two :
    let events : List Event :=
      [.subscribe (some 1) "luna://service/a" (.valid (.object [])) (some 0) true true
          .registered,
        .notify 0 true (some 5) true, .notify 0 true none true, .notify 0 false none true,
        .notify 0 true (some 6) true,
        .subscribe (some 2) "luna://service/b" (.valid (.object [])) (some 0) true true
          .registered,
        .notify 1 true (some 7) true]
    ∃ s, run (Subscriber.step .ofEmptyObject) init events = some s ∧
      OneSubscription .ofEmptyObject events s :=
  ⟨_, rfl, oneSubscription_of_run _ _ _ rfl (by decide)⟩

end Subscriber

end LSHelpers
