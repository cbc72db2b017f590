import LSHelpers.Status.ServerStatus
import LSHelpers.Transition.Run

/-!
# Calls made from inside a registration

`LSRegisterServerStatusEx` may invoke the callback before it returns, and the callback
may call `set` and `cancel` of the object that is being registered. A call is a tree: a
`set` has below it, in order, the calls made by the callbacks its registration invokes.
What such a call throws does not leave the callback. The parameter `early` says whether
the library writes the cookie before it invokes the callback, or only when it returns. A
`set` with nothing below it is `ServerStatus.set` (`exec_set_nil`).
-/

namespace LSHelpers

open Transition

/-- One object with the registrations made for it. A callback object is known by a number
that is given once. `wanted` says whether the last call that was started and did not throw
is a `set`; the `cancel` that a `set` begins with is a call too. -/
structure Watcher where
  status : ServerStatus
  bus : StatusBus
  nextCallback : Nat
  wanted : Bool
deriving Repr

namespace Watcher

/-- A call with the results of its bus functions; `body` is made only if the registration
goes through. -/
inductive Call
  | cancel (cancelOk : Bool)
  | set (handle : LSHandle) (serviceName : List Char) (cancelOk registered : Bool)
      (body : List Call)

def init : Watcher := ⟨.init, ⟨[], 0⟩, 0, false⟩

def cancel (s : Watcher) (cancelOk : Bool) : Except StatusError Unit × Watcher :=
  match s.status.cancel s.bus cancelOk with
  | (.error e, status, bus) => (.error e, { s with status := status, bus := bus })
  | (.ok (), status, bus) => (.ok (), { s with status := status, bus := bus, wanted := false })

/-- `mHandle` and `mCallback` are replaced; the callback owned before is deleted. -/
def adopt (s : Watcher) (handle : LSHandle) : Watcher :=
  { s with
    status := { s.status with mHandle := some handle, mCallback := some s.nextCallback }
    nextCallback := s.nextCallback + 1 }

/-- The cookie is written. -/
def store (s : Watcher) (cookie : Nat) : Watcher :=
  { s with status := { s.status with mCookie := some cookie } }

/-- `set` after its `cancel`, up to where the library invokes the callback. -/
def enter (early : Bool) (s : Watcher) (handle : LSHandle) (serviceName : List Char) : Watcher :=
  let registered : Watcher :=
    { s.adopt handle with
      bus := s.bus.register handle serviceName s.nextCallback
      wanted := true }
  if early then registered.store s.bus.nextCookie else registered

mutual

/-- `ServerStatus::set` and `ServerStatus::cancel`. -/
def exec (early : Bool) : Call → Watcher → Except StatusError Unit × Watcher
  | .cancel cancelOk, s => s.cancel cancelOk
  | .set handle serviceName cancelOk registered body, s =>
      match s.cancel cancelOk with
      | (.error e, s) => (.error e, s)
      | (.ok (), s) =>
          if registered then
            let inside := execAll early body (s.enter early handle serviceName)
            (.ok (), if early then inside else inside.store s.bus.nextCookie)
          else (.error .registerServerStatus, s.adopt handle)

def execAll (early : Bool) : List Call → Watcher → Watcher
  | [], s => s
  | c :: cs, s => execAll early cs (exec early c s).2

end

/-- What happens to the object: a call that is not made inside another, by the program or
by a callback the loop has invoked, and the start of such a callback. -/
inductive Event
  | call (c : Call)
  | notify (cookie : Nat)

def step (early : Bool) (s : Watcher) : Event → Option Watcher
  | .call c => some (exec early c s).2
  | .notify cookie => if s.bus.registrations.any fun r => r.cookie == cookie then some s else none

/-- What the last call asked for: the one registration has the callback the object owns,
or there is none. -/
def Settled (s : Watcher) : Prop :=
  if s.wanted then
    ∃ r, s.bus.registrations = [r] ∧ s.status.mCallback = some r.context
  else s.bus.registrations = []

/-! ## The operations -/

theorem cancel_cases (s : Watcher) (cancelOk : Bool) :
    (s.status.mCookie = none ∧ s.cancel cancelOk = (.ok (), { s with wanted := false })) ∨
    (∃ cookie, s.status.mCookie = some cookie ∧ cancelOk = true ∧
      s.cancel cancelOk = (.ok (),
        { s with
          status := { s.status with mCookie := none, mCallback := none }
          bus := s.bus.unregister cookie
          wanted := false })) ∨
    (s.status.mCookie ≠ none ∧ cancelOk = false ∧
      s.cancel cancelOk = (.error .cancelServerStatus, s)) := by
  unfold cancel
  rcases s.status.cancel_cases s.bus cancelOk with hnone | hsome | hfail
  · rw [hnone.2]
    exact .inl ⟨hnone.1, rfl⟩
  · rcases hsome with ⟨cookie, hcookie, hok, heq⟩
    rw [heq]
    exact .inr (.inl ⟨cookie, hcookie, hok, rfl⟩)
  · rw [hfail.2.2]
    exact .inr (.inr ⟨hfail.1, hfail.2.1, rfl⟩)

/-- A cancel that returns leaves no cookie. -/
theorem cancel_ok {s t : Watcher} {cancelOk : Bool} (h : s.cancel cancelOk = (.ok (), t)) :
    t.status.mCookie = none := by
  rcases cancel_cases s cancelOk with hnone | hsome | hfail
  · rw [hnone.2] at h
    cases h
    exact hnone.1
  · rcases hsome with ⟨cookie, _, _, heq⟩
    rw [heq] at h
    cases h
    rfl
  · rw [hfail.2.2] at h
    cases h

theorem cancel_isOk (s : Watcher) (cancelOk : Bool) :
    (∃ t, s.cancel cancelOk = (.ok (), t)) ↔ (s.status.mCookie.isNone || cancelOk) = true := by
  rcases cancel_cases s cancelOk with hnone | hsome | hfail
  · simp [hnone.1, hnone.2]
  · rcases hsome with ⟨cookie, _, hok, heq⟩
    rw [heq]
    simp [hok]
  · rw [hfail.2.2]
    simp [hfail.1, hfail.2.1]

/-- Without calls from inside, `exec` is `ServerStatus.set` with the next callback. -/
theorem exec_set_nil (early : Bool) (s : Watcher) (handle : LSHandle) (serviceName : List Char)
    (cancelOk registered : Bool) :
    let r := exec early (.set handle serviceName cancelOk registered []) s
    (r.1, r.2.status, r.2.bus) =
      s.status.set s.bus handle serviceName s.nextCallback cancelOk registered := by
  unfold exec cancel ServerStatus.set
  rcases s.status.cancel s.bus cancelOk with ⟨result, status, bus⟩
  cases result with
  | error e => rfl
  | ok _ => cases registered <;> cases early <;> rfl

/-! ## Invariants of a call tree -/

/-- What the parts of a call keep, the calls made from inside apart. -/
structure Kept (early : Bool) (I : Watcher → Prop) : Prop where
  cancel : ∀ s cancelOk, I s → I (s.cancel cancelOk).2
  adopt : ∀ s handle, I s → s.status.mCookie = none → I (s.adopt handle)
  enter : ∀ s handle serviceName, I s → s.status.mCookie = none →
    I (s.enter early handle serviceName)
  store : early = false → ∀ s t, I s → I t → I (t.store s.bus.nextCookie)

mutual

theorem Kept.exec {early : Bool} {I : Watcher → Prop} (h : Kept early I) :
    ∀ (c : Call) (s : Watcher), I s → I (Watcher.exec early c s).2
  | .cancel cancelOk, s, hs => by
      unfold Watcher.exec
      exact h.cancel s cancelOk hs
  | .set handle serviceName cancelOk registered body, s, hs => by
      unfold Watcher.exec
      have hcancelled := h.cancel s cancelOk hs
      cases hcancel : s.cancel cancelOk with
      | mk result t =>
          rw [hcancel] at hcancelled
          cases result with
          | error e => exact hcancelled
          | ok _ =>
              have hcookie := cancel_ok hcancel
              cases registered with
              | false => exact h.adopt t handle hcancelled hcookie
              | true =>
                  have henter := h.enter t handle serviceName hcancelled hcookie
                  have hinside := h.execAll body _ henter
                  cases early with
                  | true => exact hinside
                  | false => exact h.store rfl t _ hcancelled hinside

theorem Kept.execAll {early : Bool} {I : Watcher → Prop} (h : Kept early I) :
    ∀ (cs : List Call) (s : Watcher), I s → I (Watcher.execAll early cs s)
  | [], s, hs => by
      unfold Watcher.execAll
      exact hs
  | c :: cs, s, hs => by
      unfold Watcher.execAll
      exact h.execAll cs _ (h.exec c s hs)

end

/-! ## When no call is made from inside -/

/-- A call whose registration goes through and has calls made inside it. -/
def Call.reenters (s : Watcher) : Call → Bool
  | .cancel _ => false
  | .set _ _ cancelOk registered body =>
      (s.status.mCookie.isNone || cancelOk) && registered && !body.isEmpty

def Reenters (s : Watcher) : Event → Prop
  | .call c => c.reenters s = true
  | .notify _ => False

theorem reenters_set_of_cancel {s t : Watcher} {handle : LSHandle} {serviceName : List Char}
    {cancelOk registered : Bool} {body : List Call} (h : s.cancel cancelOk = (.ok (), t)) :
    (Call.set handle serviceName cancelOk registered body).reenters s =
      (registered && !body.isEmpty) := by
  have hok := (cancel_isOk s cancelOk).mp ⟨t, h⟩
  simp only [Call.reenters, hok, Bool.true_and]

/-- Without such calls it makes no difference when the cookie is written. -/
theorem exec_early {s : Watcher} {c : Call} (h : c.reenters s = false) :
    exec false c s = exec true c s := by
  cases c with
  | cancel cancelOk => simp only [exec]
  | set handle serviceName cancelOk registered body =>
      unfold exec
      cases hcancel : s.cancel cancelOk with
      | mk result t =>
          cases result with
          | error e => rfl
          | ok _ =>
              simp only [reenters_set_of_cancel hcancel, Bool.and_eq_false_iff] at h
              cases h with
              | inl hregistered => simp [hregistered]
              | inr hbody =>
                  have hnil : body = [] := by simpa using hbody
                  subst hnil
                  cases registered <;> rfl

/-- The cookie is that of the one registration. -/
structure Sound (s : Watcher) : Prop where
  settled : s.Settled
  cookie : s.status.mCookie = s.bus.registrations.head?.map Registration.cookie

/-- A sound object without a cookie has no registration and is not wanted to have one. -/
theorem Sound.without_cookie {s : Watcher} (h : Sound s) (hcookie : s.status.mCookie = none) :
    s.bus.registrations = [] ∧ s.wanted = false := by
  have hempty : s.bus.registrations = [] := by
    have hhead := h.cookie
    rw [hcookie] at hhead
    simpa using hhead.symm
  refine ⟨hempty, ?_⟩
  have hsettled := h.settled
  unfold Settled at hsettled
  split at hsettled
  · rcases hsettled with ⟨r, hr, _⟩
    rw [hempty] at hr
    cases hr
  · rename_i hwanted
    simpa using hwanted

/-- With a cookie it has one registration, which the cookie cancels. -/
theorem Sound.unregister {s : Watcher} {cookie : Nat} (h : Sound s)
    (hcookie : s.status.mCookie = some cookie) :
    (s.bus.unregister cookie).registrations = [] := by
  have hhead := h.cookie
  rw [hcookie] at hhead
  have hsettled := h.settled
  unfold Settled at hsettled
  split at hsettled
  · rcases hsettled with ⟨r, hr, _⟩
    rw [hr] at hhead
    simp [StatusBus.unregister, hr, Option.some.inj hhead]
  · rw [hsettled] at hhead
    cases hhead

/-- When the cookie is written first, every call keeps the object sound. -/
theorem kept_sound : Kept true Sound where
  cancel s cancelOk h := by
    rcases cancel_cases s cancelOk with hnone | hsome | hfail
    · have hempty := (h.without_cookie hnone.1).1
      rw [hnone.2]
      constructor
      · simp [Settled, hempty]
      · simp [hnone.1, hempty]
    · rcases hsome with ⟨cookie, hcookie, _, heq⟩
      have hempty := h.unregister hcookie
      rw [heq]
      constructor
      · simp [Settled, hempty]
      · simp [hempty]
    · rw [hfail.2.2]
      exact h
  adopt s handle h hcookie := by
    rcases h.without_cookie hcookie with ⟨hempty, hwanted⟩
    constructor
    · simp [Settled, Watcher.adopt, hwanted, hempty]
    · simp [Watcher.adopt, hcookie, hempty]
  enter s handle serviceName h hcookie := by
    have hempty := (h.without_cookie hcookie).1
    constructor
    · simp [Settled, Watcher.enter, Watcher.store, Watcher.adopt, StatusBus.register, hempty]
    · simp [Watcher.enter, Watcher.store, StatusBus.register, hempty]
  store hearly := by cases hearly

theorem Sound.exec {early : Bool} {s : Watcher} {c : Call} (h : Sound s)
    (hcall : early = true ∨ c.reenters s = false) : Sound (Watcher.exec early c s).2 := by
  cases early with
  | true => exact kept_sound.exec c s h
  | false =>
      cases hcall with
      | inl hfalse => cases hfalse
      | inr hreenters =>
          rw [exec_early hreenters]
          exact kept_sound.exec c s h

theorem Sound.step {early : Bool} {s t : Watcher} {e : Event} (h : Sound s)
    (hcall : early = true ∨ ¬ Reenters s e) (hstep : Watcher.step early s e = some t) :
    Sound t := by
  cases e with
  | call c =>
      obtain rfl := Option.some.inj hstep
      exact h.exec (hcall.imp_right fun hfree => Bool.eq_false_iff.mpr hfree)
  | notify cookie =>
      simp only [Watcher.step] at hstep
      split at hstep
      · obtain rfl := Option.some.inj hstep
        exact h
      · cases hstep

/-! ## When a call is made from inside -/

/-- The object still has the callback but neither a cookie nor the wish for one: only
cancels were made, and they did nothing. -/
structure Idle (callback : Nat) (s : Watcher) : Prop where
  cookie : s.status.mCookie = none
  wanted : s.wanted = false
  old : callback < s.nextCallback

end Watcher

end LSHelpers
