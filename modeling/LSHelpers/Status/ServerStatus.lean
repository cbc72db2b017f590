import LSHelpers.Luna

/-!
# Server-status watches

A `ServerStatus` and the registrations the bus keeps for it. `LSRegisterServerStatusEx`
and `LSCancelServerStatus` may fail; a failed registration writes no cookie, and a
failed cancel leaves the registration and the object as they were.
-/

namespace LSHelpers

/-- A registration on the bus. Its context is the address of a callback object. -/
structure Registration where
  cookie : Nat
  handle : LSHandle
  serviceName : List Char
  context : Nat
deriving Repr, DecidableEq

structure StatusBus where
  registrations : List Registration
  nextCookie : Nat
deriving Repr

structure ServerStatus where
  mHandle : Option LSHandle
  mCookie : Option Nat
  mCallback : Option Nat
deriving Repr, DecidableEq

/-- What the library throws on a bus failure, or on an argument it refuses. -/
inductive StatusError
  | cancelServerStatus
  | registerServerStatus
deriving Repr, DecidableEq

namespace StatusBus

def register (bus : StatusBus) (handle : LSHandle) (serviceName : List Char) (context : Nat) :
    StatusBus where
  registrations := bus.registrations ++ [⟨bus.nextCookie, handle, serviceName, context⟩]
  nextCookie := bus.nextCookie + 1

def unregister (bus : StatusBus) (cookie : Nat) : StatusBus :=
  { bus with registrations := bus.registrations.filter fun r => r.cookie != cookie }

end StatusBus

namespace ServerStatus

/-- The default constructor. -/
def init : ServerStatus := ⟨none, none, none⟩

/-- `ServerStatus::cancel`; `cancelOk` is the result of `LSCancelServerStatus`. -/
def cancel (status : ServerStatus) (bus : StatusBus) (cancelOk : Bool) :
    Except StatusError Unit × ServerStatus × StatusBus :=
  match status.mCookie with
  | none => (.ok (), status, bus)
  | some cookie =>
      if cancelOk then
        (.ok (), { status with mCookie := none, mCallback := none }, bus.unregister cookie)
      else (.error .cancelServerStatus, status, bus)

/-- `ServerStatus::set`, with the address of the new callback object; `registered` is
the result of `LSRegisterServerStatusEx`. -/
def set (status : ServerStatus) (bus : StatusBus) (handle : LSHandle) (serviceName : List Char)
    (callback : Nat) (cancelOk registered : Bool) :
    Except StatusError Unit × ServerStatus × StatusBus :=
  match status.cancel bus cancelOk with
  | (.error e, status, bus) => (.error e, status, bus)
  | (.ok (), status, bus) =>
      let status := { status with mHandle := some handle, mCallback := some callback }
      if registered then
        (.ok (), { status with mCookie := some bus.nextCookie },
          bus.register handle serviceName callback)
      else (.error .registerServerStatus, status, bus)

/-- The move of `other` into a new or a cancelled object: that object, and what is left
of `other`. -/
def moveFrom (other : ServerStatus) : ServerStatus × ServerStatus := (other, init)

/-- The same with one object on both sides; its callback stays where it is. -/
def moveFromSelf (status : ServerStatus) : ServerStatus :=
  { status with mHandle := none, mCookie := none }

/-- The destructor, whose `LSCancelServerStatus` succeeds. -/
def destroy (status : ServerStatus) (bus : StatusBus) : StatusBus :=
  match status.mCookie with
  | none => bus
  | some cookie => bus.unregister cookie

/-- Nothing to cancel, a watch that is gone, or a failure that leaves everything as it was. -/
theorem cancel_cases (status : ServerStatus) (bus : StatusBus) (cancelOk : Bool) :
    (status.mCookie = none ∧ status.cancel bus cancelOk = (.ok (), status, bus)) ∨
    (∃ cookie, status.mCookie = some cookie ∧ cancelOk = true ∧
      status.cancel bus cancelOk =
        (.ok (), { status with mCookie := none, mCallback := none }, bus.unregister cookie)) ∨
    (status.mCookie ≠ none ∧ cancelOk = false ∧
      status.cancel bus cancelOk = (.error .cancelServerStatus, status, bus)) := by
  unfold ServerStatus.cancel
  cases status.mCookie with
  | none => exact .inl ⟨rfl, rfl⟩
  | some cookie =>
      cases cancelOk with
      | true => exact .inr (.inl ⟨cookie, rfl, rfl, rfl⟩)
      | false => exact .inr (.inr ⟨by simp, rfl, rfl⟩)

end ServerStatus

end LSHelpers
