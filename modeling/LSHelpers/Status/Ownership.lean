import LSHelpers.Status.ServerStatus
import LSHelpers.Transition.OneToOne
import LSHelpers.Transition.Run
import Mathlib.Data.List.Nodup

/-!
# Watches owned by server-status objects

Any number of `ServerStatus` objects on one bus, with the callback objects that exist.
Handle, cookie and callback of a watch move together from object to object, and the
bus has nothing that no object can cancel.
-/

namespace LSHelpers

open Transition

structure Family where
  objects : Nat → Option ServerStatus
  callbacks : Nat → Bool
  bus : StatusBus

namespace Family

def init : Family := ⟨fun _ => none, fun _ => false, ⟨[], 0⟩⟩

/-- The object at `o` becomes `status`, or ceases to exist. A callback it no longer owns is
deleted. -/
def put (s : Family) (o : Nat) (status : Option ServerStatus) (bus : StatusBus) : Family where
  objects := Function.update s.objects o status
  callbacks c :=
    if status.bind ServerStatus.mCallback = some c then true
    else if (s.objects o).bind ServerStatus.mCallback = some c then false
    else s.callbacks c
  bus := bus

/-- The object `other` at `source` is moved to `target`, which owns no callback. -/
def move (s : Family) (target source : Nat) (other : ServerStatus) : Family :=
  { s with
    objects := Function.update (Function.update s.objects source (some other.moveFrom.2)) target
      (some other.moveFrom.1) }

inductive Event
  | create (o : Nat)
  | set (o : Nat) (handle : LSHandle) (serviceName : List Char) (callback : Nat)
      (cancelOk registered : Bool)
  | cancel (o : Nat) (cancelOk : Bool)
  | moveConstruct (target source : Nat)
  | moveAssign (target source : Nat) (cancelOk : Bool)
  | destroy (o : Nat)

/-- An object is made where none is, and so is a callback object. -/
def step (s : Family) : Event → Option Family
  | .create o =>
      match s.objects o with
      | none => some (s.put o (some .init) s.bus)
      | some _ => none
  | .set o handle serviceName callback cancelOk registered =>
      match s.objects o, s.callbacks callback with
      | some status, false =>
          let r := status.set s.bus handle serviceName callback cancelOk registered
          some (s.put o (some r.2.1) r.2.2)
      | _, _ => none
  | .cancel o cancelOk =>
      (s.objects o).map fun status =>
        let r := status.cancel s.bus cancelOk
        s.put o (some r.2.1) r.2.2
  | .moveConstruct target source =>
      match s.objects target, s.objects source with
      | none, some other => some (s.move target source other)
      | _, _ => none
  | .moveAssign target source cancelOk =>
      match s.objects target, s.objects source with
      | some status, some other =>
          match status.cancel s.bus cancelOk with
          | (.error _, status, bus) => some (s.put target (some status) bus)
          | (.ok (), status, bus) =>
              if target = source then some (s.put target (some status.moveFromSelf) bus)
              else
                -- the callback left in the target is deleted by the move of the other one
                let s := s.put target (some { status with mCallback := none }) bus
                some (s.move target source other)
      | _, _ => none
  | .destroy o => (s.objects o).map fun status => s.put o none (status.destroy s.bus)

def cookie (s : Family) (o : Nat) : Option Nat := (s.objects o).bind ServerStatus.mCookie

def callback (s : Family) (o : Nat) : Option Nat := (s.objects o).bind ServerStatus.mCallback

def handle (s : Family) (o : Nat) : Option LSHandle := (s.objects o).bind ServerStatus.mHandle

/-- Registrations and the objects with their cookies are one-to-one, and so are callback
objects and their owners; a registration has the callback and the handle of the object
that has its cookie. -/
structure Linked (s : Family) : Prop where
  cookies : OneToOne s.cookie fun c => ∃ r ∈ s.bus.registrations, r.cookie = c
  callbacks : OneToOne s.callback fun c => s.callbacks c = true
  nodup : (s.bus.registrations.map Registration.cookie).Nodup
  fresh : ∀ r ∈ s.bus.registrations, r.cookie < s.bus.nextCookie
  context : ∀ o, ∀ r ∈ s.bus.registrations, s.cookie o = some r.cookie →
    s.callback o = some r.context ∧ s.handle o = some r.handle

/-! ## Single changes -/

section Put

variable {s : Family} {o : Nat} {status : Option ServerStatus} {bus : StatusBus}

theorem field_put (f : ServerStatus → Option Nat) :
    (fun o' => ((s.put o status bus).objects o').bind f) =
      Function.update (fun o' => (s.objects o').bind f) o (status.bind f) := by
  funext o'
  by_cases h : o' = o
  · subst h
    simp only [put, Function.update_self]
  · simp only [put, Function.update_of_ne h]

theorem cookie_put : (s.put o status bus).cookie =
    Function.update s.cookie o (status.bind ServerStatus.mCookie) := field_put _

theorem callback_put : (s.put o status bus).callback =
    Function.update s.callback o (status.bind ServerStatus.mCallback) := field_put _

theorem handle_put : (s.put o status bus).handle =
    Function.update s.handle o (status.bind ServerStatus.mHandle) := field_put _

/-- Only the last of two changes of one object counts, when it owned no callback between. -/
theorem put_put {mid : ServerStatus} {bus' : StatusBus} (hmid : mid.mCallback = none) :
    (s.put o (some mid) bus).put o status bus' = s.put o status bus' := by
  unfold put
  simp only [Function.update_idem, Function.update_self, Option.bind_some, hmid, reduceCtorEq,
    if_false]

/-- What an object owns stays with it, or nobody else has it. -/
theorem Linked.callbacks_put (h : Linked s)
    (hstatus : ∀ c, status.bind ServerStatus.mCallback = some c → s.callbacks c = true →
      s.callback o = some c) :
    OneToOne (s.put o status bus).callback fun c => (s.put o status bus).callbacks c = true := by
  rw [callback_put]
  apply h.callbacks.replace o _ hstatus
  intro c
  unfold put callback
  dsimp only
  split
  · next hnew => simp [hnew]
  · next hnew =>
      split
      · next hold => simp [hnew, hold]
      · next hold => simp [hnew, hold]

/-- An object without a watch that does not get one. -/
theorem Linked.idle (h : Linked s) (ho : s.cookie o = none)
    (hcookie : status.bind ServerStatus.mCookie = none)
    (hstatus : ∀ c, status.bind ServerStatus.mCallback = some c → s.callbacks c = true →
      s.callback o = some c) :
    Linked (s.put o status s.bus) where
  cookies := by
    rw [cookie_put, hcookie, ← ho, Function.update_eq_self]
    exact h.cookies
  callbacks := h.callbacks_put hstatus
  nodup := h.nodup
  fresh := h.fresh
  context o' r hr hr' := by
    rw [cookie_put, hcookie] at hr'
    by_cases heq : o' = o
    · subst heq
      rw [Function.update_self] at hr'
      cases hr'
    · rw [Function.update_of_ne heq] at hr'
      rw [callback_put, Function.update_of_ne heq, handle_put,
        Function.update_of_ne heq]
      exact h.context o' r hr hr'

/-- The watch of an object is cancelled. -/
theorem Linked.unregister (h : Linked s) {c : Nat} (ho : s.cookie o = some c)
    (hcookie : status.bind ServerStatus.mCookie = none)
    (hstatus : ∀ c, status.bind ServerStatus.mCallback = some c → s.callbacks c = true →
      s.callback o = some c) :
    Linked (s.put o status (s.bus.unregister c)) where
  cookies := by
    rw [cookie_put, hcookie]
    apply h.cookies.replace o none
    · intro c' hc'
      cases hc'
    · intro c'
      simp only [put, StatusBus.unregister, List.mem_filter, bne_iff_ne, ho, ne_eq,
        Option.some.injEq, reduceCtorEq, or_false]
      constructor
      · intro hr
        rcases hr with ⟨r, ⟨hmem, hne⟩, rfl⟩
        exact ⟨⟨r, hmem, rfl⟩, fun heq => hne heq.symm⟩
      · intro hr
        rcases hr with ⟨⟨r, hmem, rfl⟩, hne⟩
        exact ⟨r, ⟨hmem, fun heq => hne heq.symm⟩, rfl⟩
  callbacks := h.callbacks_put hstatus
  nodup := h.nodup.sublist (List.filter_sublist.map _)
  fresh r hr := h.fresh r (List.mem_filter.mp hr).1
  context o' r hr hr' := by
    rw [cookie_put, hcookie] at hr'
    by_cases heq : o' = o
    · subst heq
      rw [Function.update_self] at hr'
      cases hr'
    · rw [Function.update_of_ne heq] at hr'
      rw [callback_put, Function.update_of_ne heq, handle_put,
        Function.update_of_ne heq]
      exact h.context o' r (List.mem_filter.mp hr).1 hr'

/-- An object without a watch gets one. -/
theorem Linked.register (h : Linked s) (ho : s.cookie o = none) {handle : LSHandle}
    {serviceName : List Char} {c : Nat} (hc : s.callbacks c = true → s.callback o = some c) :
    Linked (s.put o (some ⟨some handle, some s.bus.nextCookie, some c⟩)
      (s.bus.register handle serviceName c)) where
  cookies := by
    have hfresh : ¬ ∃ r ∈ s.bus.registrations, r.cookie = s.bus.nextCookie := by
      intro hr
      rcases hr with ⟨r, hmem, heq⟩
      have hlt := h.fresh r hmem
      omega
    rw [cookie_put]
    apply h.cookies.replace o
    · intro c' hc' hlive
      obtain rfl := Option.some.inj hc'
      exact absurd hlive hfresh
    · intro c'
      simp only [put, StatusBus.register, List.mem_append, List.mem_singleton, ho, ne_eq,
        reduceCtorEq, not_false_eq_true, and_true, Option.bind_some, Option.some.injEq]
      constructor
      · intro hr
        rcases hr with ⟨r, hmem | rfl, heq⟩
        · exact .inl ⟨r, hmem, heq⟩
        · exact .inr heq
      · intro hr
        rcases hr with ⟨r, hmem, heq⟩ | heq
        · exact ⟨r, .inl hmem, heq⟩
        · exact ⟨_, .inr rfl, heq⟩
  callbacks := by
    apply h.callbacks_put
    intro c' hc' hlive
    obtain rfl := Option.some.inj hc'
    exact hc hlive
  nodup := by
    simp only [put, StatusBus.register, List.map_append, List.map_cons, List.map_nil]
    apply List.nodup_append.mpr
    refine ⟨h.nodup, by simp, ?_⟩
    intro c' hc' c'' hc'' heq
    rcases List.mem_map.mp hc' with ⟨r, hr, rfl⟩
    have hlt := h.fresh r hr
    rw [List.mem_singleton] at hc''
    omega
  fresh r hr := by
    simp only [put, StatusBus.register, List.mem_append, List.mem_singleton] at hr ⊢
    cases hr with
    | inl hmem =>
        have hlt := h.fresh r hmem
        omega
    | inr heq =>
        subst heq
        exact Nat.lt_succ_self _
  context o' r hr hr' := by
    simp only [put, StatusBus.register, List.mem_append, List.mem_singleton] at hr
    rw [cookie_put] at hr'
    by_cases heq : o' = o
    · subst heq
      rw [Function.update_self] at hr'
      have hcookie : s.bus.nextCookie = r.cookie := Option.some.inj hr'
      rw [callback_put, Function.update_self, handle_put, Function.update_self]
      cases hr with
      | inl hmem =>
          have hlt := h.fresh r hmem
          omega
      | inr hnew =>
          subst hnew
          exact ⟨rfl, rfl⟩
    · rw [Function.update_of_ne heq] at hr'
      rw [callback_put, Function.update_of_ne heq, handle_put,
        Function.update_of_ne heq]
      cases hr with
      | inl hmem => exact h.context o' r hmem hr'
      | inr hnew =>
          subst hnew
          rcases (h.cookies.held s.bus.nextCookie).mpr ⟨o', hr'⟩ with ⟨r, hmem, hr⟩
          have hlt := h.fresh r hmem
          omega

end Put

section Move

variable {s : Family} {target source : Nat} {other : ServerStatus}

theorem field_move (f : ServerStatus → Option Nat) (hf : f .init = none)
    (hsource : s.objects source = some other) :
    (fun o => ((s.move target source other).objects o).bind f) =
      Function.update (Function.update (fun o => (s.objects o).bind f) source none) target
        ((s.objects source).bind f) := by
  funext o
  unfold move
  dsimp only
  by_cases ht : o = target
  · subst ht
    rw [Function.update_self, Function.update_self, hsource]
    rfl
  · rw [Function.update_of_ne ht, Function.update_of_ne ht]
    by_cases hs : o = source
    · subst hs
      rw [Function.update_self, Function.update_self]
      exact hf
    · rw [Function.update_of_ne hs, Function.update_of_ne hs]

/-- Handle, cookie and callback go together. -/
theorem Linked.move (h : Linked s) (hsource : s.objects source = some other)
    (hne : target ≠ source) (hcookie : s.cookie target = none) (hcallback : s.callback target = none) :
    Linked (s.move target source other) where
  cookies := by
    have hmove : (s.move target source other).cookie = _ := field_move _ rfl hsource
    rw [hmove]
    exact h.cookies.transfer hne hcookie
  callbacks := by
    have hmove : (s.move target source other).callback = _ := field_move _ rfl hsource
    rw [hmove]
    exact h.callbacks.transfer hne hcallback
  nodup := h.nodup
  fresh := h.fresh
  context o r hr hr' := by
    have hcookies : (s.move target source other).cookie = _ := field_move _ rfl hsource
    have hcallbacks : (s.move target source other).callback = _ := field_move _ rfl hsource
    have hhandles : (s.move target source other).handle = _ := field_move _ rfl hsource
    rw [hcookies] at hr'
    rw [hcallbacks, hhandles]
    by_cases ht : o = target
    · subst ht
      rw [Function.update_self] at hr' ⊢
      rw [Function.update_self]
      exact h.context source r hr hr'
    · rw [Function.update_of_ne ht] at hr' ⊢
      rw [Function.update_of_ne ht]
      by_cases hs : o = source
      · subst hs
        rw [Function.update_self] at hr'
        cases hr'
      · rw [Function.update_of_ne hs] at hr' ⊢
        rw [Function.update_of_ne hs]
        exact h.context o r hr hr'

end Move

/-! ## The operations -/

section Operations

variable {s : Family} {o : Nat} {status : ServerStatus}

theorem cookie_eq (ho : s.objects o = some status) : s.cookie o = status.mCookie := by
  simp [cookie, ho]

theorem callback_eq (ho : s.objects o = some status) : s.callback o = status.mCallback := by
  simp [callback, ho]

/-- An object left as it is. -/
theorem Linked.same (h : Linked s) (ho : s.objects o = some status) :
    Linked (s.put o (some status) s.bus) := by
  have hcookie : (s.put o (some status) s.bus).cookie = s.cookie := by
    rw [cookie_put, Option.bind_some, ← cookie_eq ho, Function.update_eq_self]
  have hcallback : (s.put o (some status) s.bus).callback = s.callback := by
    rw [callback_put, Option.bind_some, ← callback_eq ho, Function.update_eq_self]
  have hhandle : (s.put o (some status) s.bus).handle = s.handle := by
    have heq : s.handle o = status.mHandle := by simp [handle, ho]
    rw [handle_put, Option.bind_some, ← heq, Function.update_eq_self]
  constructor
  · rw [hcookie]
    exact h.cookies
  · apply h.callbacks_put
    intro c hc _
    rw [callback_eq ho, ← hc, Option.bind_some]
  · exact h.nodup
  · exact h.fresh
  · rw [hcookie, hcallback, hhandle]
    exact h.context

/-- The object after a `cancel` that returns, where it holds no watch. -/
theorem Linked.cancelled (h : Linked s) (ho : s.objects o = some status) {c : Nat}
    (hc : status.mCookie = some c) (left : ServerStatus) (hcookie : left.mCookie = none)
    (hcallback : left.mCallback = none) :
    Linked (s.put o (some left) (s.bus.unregister c)) := by
  refine h.unregister ((cookie_eq ho).trans hc) hcookie ?_
  intro c' hc'
  rw [Option.bind_some, hcallback] at hc'
  cases hc'

theorem Linked.cancel (h : Linked s) (ho : s.objects o = some status) (cancelOk : Bool) :
    Linked (s.put o (some (status.cancel s.bus cancelOk).2.1) (status.cancel s.bus cancelOk).2.2) := by
  rcases status.cancel_cases s.bus cancelOk with hidle | hdone | hfailed
  · rw [hidle.2]
    exact h.same ho
  · rcases hdone with ⟨c, hc, _, heq⟩
    rw [heq]
    exact h.cancelled ho hc _ rfl rfl
  · rw [hfailed.2.2]
    exact h.same ho

/-- What `set` does once there is no watch. -/
theorem Linked.start (h : Linked s) (hcookie : s.cookie o = none) {callback : Nat}
    (hnew : s.callbacks callback = false) (handle : LSHandle) (serviceName : List Char)
    (registered : Bool) :
    let started : ServerStatus := ⟨some handle, none, some callback⟩
    Linked (if registered then
        s.put o (some { started with mCookie := some s.bus.nextCookie })
          (s.bus.register handle serviceName callback)
      else s.put o (some started) s.bus) := by
  have hfree : s.callbacks callback = true → s.callback o = some callback := by
    intro hlive
    rw [hnew] at hlive
    cases hlive
  cases registered with
  | true => exact h.register hcookie hfree
  | false =>
      apply h.idle hcookie rfl
      intro c hc hlive
      obtain rfl := Option.some.inj hc
      exact hfree hlive

theorem Linked.set (h : Linked s) (ho : s.objects o = some status) {callback : Nat}
    (hnew : s.callbacks callback = false) (handle : LSHandle) (serviceName : List Char)
    (cancelOk registered : Bool) :
    let r := status.set s.bus handle serviceName callback cancelOk registered
    Linked (s.put o (some r.2.1) r.2.2) := by
  unfold ServerStatus.set
  rcases status.cancel_cases s.bus cancelOk with hidle | hdone | hfailed
  · have hstart := h.start ((cookie_eq ho).trans hidle.1) hnew handle serviceName registered
    rw [hidle.2]
    cases registered with
    | true => exact hstart
    | false =>
        have heq : ({ status with mHandle := some handle, mCallback := some callback } :
            ServerStatus) = ⟨some handle, none, some callback⟩ := by rw [← hidle.1]
        simpa [heq] using hstart
  · rcases hdone with ⟨c, hc, _, heq⟩
    let mid : ServerStatus := { status with mCookie := none, mCallback := none }
    have hmid : Linked (s.put o (some mid) (s.bus.unregister c)) :=
      h.cancelled ho hc mid rfl rfl
    have hidle : (s.put o (some mid) (s.bus.unregister c)).cookie o = none := by
      rw [cookie_put, Function.update_self]
      rfl
    have hunused : (s.put o (some mid) (s.bus.unregister c)).callbacks callback = false := by
      simp [put, mid, hnew]
    have hstart := hmid.start hidle hunused handle serviceName registered
    have hput : ∀ last bus, (s.put o (some mid) (s.bus.unregister c)).put o last bus =
        s.put o last bus := fun last bus => put_put rfl
    simp only [hput] at hstart
    rw [heq]
    cases registered with
    | true => exact hstart
    | false => exact hstart
  · rw [hfailed.2.2]
    exact h.same ho

/-- The move of one object to another that holds no watch, once its callback is gone. -/
theorem Linked.moveInto {target source : Nat} {other : ServerStatus} {bus : StatusBus}
    (left : ServerStatus) (h : Linked (s.put target (some { left with mCallback := none }) bus))
    (hsource : s.objects source = some other) (hne : target ≠ source)
    (hcookie : left.mCookie = none) :
    Linked ((s.put target (some { left with mCallback := none }) bus).move target source other) := by
  apply h.move
  · simp only [put, Function.update_of_ne hne.symm, hsource]
  · exact hne
  · rw [cookie_put, Function.update_self]
    exact hcookie
  · rw [callback_put, Function.update_self]
    rfl

theorem Linked.moveAssign {target source : Nat} {other : ServerStatus} (h : Linked s)
    (ho : s.objects target = some status) (hsource : s.objects source = some other)
    {cancelOk : Bool} {t : Family} (hstep : s.step (.moveAssign target source cancelOk) = some t) :
    Linked t := by
  simp only [step, ho, hsource] at hstep
  rcases status.cancel_cases s.bus cancelOk with hidle | hdone | hfailed
  · have hnone := (cookie_eq ho).trans hidle.1
    simp only [hidle.2] at hstep
    split at hstep
    · obtain rfl := Option.some.inj hstep
      refine h.idle hnone rfl ?_
      intro c hc _
      exact (callback_eq ho).trans hc
    · next hne =>
        obtain rfl := Option.some.inj hstep
        refine Linked.moveInto status (h.idle hnone hidle.1 ?_) hsource hne hidle.1
        intro c hc
        cases hc
  · rcases hdone with ⟨c, hc, _, heq⟩
    simp only [heq] at hstep
    split at hstep
    · obtain rfl := Option.some.inj hstep
      exact h.cancelled ho hc _ rfl rfl
    · next hne =>
        obtain rfl := Option.some.inj hstep
        let left : ServerStatus := { status with mCookie := none, mCallback := none }
        exact Linked.moveInto left (h.cancelled ho hc left rfl rfl) hsource hne rfl
  · simp only [hfailed.2.2] at hstep
    obtain rfl := Option.some.inj hstep
    exact h.same ho

theorem Linked.destroy (h : Linked s) (ho : s.objects o = some status) :
    Linked (s.put o none (status.destroy s.bus)) := by
  have hnone : ∀ c, (none : Option ServerStatus).bind ServerStatus.mCallback = some c →
      s.callbacks c = true → s.callback o = some c := by
    intro c hc
    cases hc
  unfold ServerStatus.destroy
  cases hcookie : status.mCookie with
  | none => exact h.idle ((cookie_eq ho).trans hcookie) rfl hnone
  | some c => exact h.unregister ((cookie_eq ho).trans hcookie) rfl hnone

theorem Linked.create (h : Linked s) (ho : s.objects o = none) :
    Linked (s.put o (some .init) s.bus) := by
  have hcookie : s.cookie o = none := by simp [cookie, ho]
  refine h.idle hcookie rfl ?_
  intro c hc
  cases hc

end Operations

theorem Linked.step {s t : Family} {e : Event} (h : Linked s) (hstep : s.step e = some t) :
    Linked t := by
  cases e with
  | create o =>
      simp only [Family.step] at hstep
      split at hstep
      · next ho =>
          obtain rfl := Option.some.inj hstep
          exact h.create ho
      · cases hstep
  | set o handle serviceName callback cancelOk registered =>
      simp only [Family.step] at hstep
      split at hstep
      · next status ho hnew =>
          obtain rfl := Option.some.inj hstep
          exact h.set ho hnew handle serviceName cancelOk registered
      · cases hstep
  | cancel o cancelOk =>
      rcases Option.map_eq_some_iff.mp hstep with ⟨status, ho, rfl⟩
      exact h.cancel ho cancelOk
  | moveConstruct target source =>
      simp only [Family.step] at hstep
      split at hstep
      · next other htarget hsource =>
          obtain rfl := Option.some.inj hstep
          have hne : target ≠ source := by
            intro heq
            rw [heq, hsource] at htarget
            cases htarget
          exact h.move hsource hne (by simp [cookie, htarget]) (by simp [Family.callback, htarget])
      · cases hstep
  | moveAssign target source cancelOk =>
      cases htarget : s.objects target with
      | none => simp [Family.step, htarget] at hstep
      | some status =>
          cases hsource : s.objects source with
          | none => simp [Family.step, htarget, hsource] at hstep
          | some other => exact h.moveAssign htarget hsource hstep
  | destroy o =>
      rcases Option.map_eq_some_iff.mp hstep with ⟨status, ho, rfl⟩
      exact h.destroy ho

theorem Linked.init : Linked init where
  cookies := ⟨by simp [Family.init, cookie], by simp [Family.init, cookie]⟩
  callbacks := ⟨by simp [Family.init, Family.callback], by simp [Family.init, Family.callback]⟩
  nodup := List.nodup_nil
  fresh := by simp [Family.init]
  context := by simp [Family.init]

theorem linked_of_run {events : List Event} {t : Family} (h : run step init events = some t) :
    Linked t :=
  run_invariant (fun _ _ _ hm hstep => hm.step hstep) h Linked.init

/-- The bus has one registration for each object with a cookie, and no other; its context
is the callback that this object owns, which exists, and its handle is the object's. -/
structure WatchesOwned (s : Family) : Prop where
  owner : ∀ r ∈ s.bus.registrations, ∃! o, s.cookie o = some r.cookie
  registration : ∀ o c, s.cookie o = some c → ∃! r, r ∈ s.bus.registrations ∧ r.cookie = c
  nodup : s.bus.registrations.Nodup
  context : ∀ o, ∀ r ∈ s.bus.registrations, s.cookie o = some r.cookie →
    s.callback o = some r.context ∧ s.handle o = some r.handle ∧ s.callbacks r.context = true

theorem Linked.watchesOwned {s : Family} (h : Linked s) : WatchesOwned s where
  owner r hr := h.cookies.existsUnique ⟨r, hr, rfl⟩
  registration o c hc := by
    rcases (h.cookies.held c).mpr ⟨o, hc⟩ with ⟨r, hr, rfl⟩
    refine ⟨r, ⟨hr, rfl⟩, ?_⟩
    intro r' hr'
    exact List.inj_on_of_nodup_map h.nodup hr'.1 hr hr'.2
  nodup := List.Nodup.of_map _ h.nodup
  context o r hr ho := by
    rcases h.context o r hr ho with ⟨hcallback, hhandle⟩
    exact ⟨hcallback, hhandle, (h.callbacks.held r.context).mpr ⟨o, hcallback⟩⟩

theorem watchesOwned_of_run {events : List Event} {t : Family}
    (h : run step init events = some t) : WatchesOwned t :=
  (linked_of_run h).watchesOwned

/-- A watch moved onto an object that has one of its own. -/
def moveEvents : List Event :=
  [.create 0, .set 0 7 [] 10 true true, .create 1, .set 1 8 [] 11 true true, .moveAssign 1 0 true]

theorem watchesOwned_of_moveEvents : ∃ t, run step init moveEvents = some t ∧ WatchesOwned t := by
  have h : run step init moveEvents = some _ := rfl
  exact ⟨_, h, watchesOwned_of_run h⟩

end Family

end LSHelpers
