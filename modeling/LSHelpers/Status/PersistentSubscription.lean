import LSHelpers.Json.Value
import LSHelpers.Status.ServerStatus

/-!
# A persistent subscription

`Subscriber` is a `PersistentSubscription` with what it has on the bus: its status
registrations and its outstanding calls. A call remembers the handle, URI and
parameters it was issued with, and which `subscribe` was the latest then.

The registration may invoke the callback before it returns. A callback that returns then
does what it does right after the registration (`onServiceStatusResponse_status`), and
one that throws takes `subscribe` along, with the registration on the bus.
-/

namespace LSHelpers

/-! ## Strings of the standard library

A text is the list of its characters. The patterns looked for are ASCII, so characters
and bytes cut a text at the same places.
-/

/-- `std::string::npos`. -/
def npos : Nat := UInt64.size - 1

/-- The first place of a pattern in a text whose first character has index `i`. -/
def findIn (pattern : List Char) : List Char → Nat → Option Nat
  | [], i => if pattern.isEmpty then some i else none
  | c :: cs, i => if pattern.isPrefixOf (c :: cs) then some i else findIn pattern cs (i + 1)

/-- `std::string::find`. -/
def find (s pattern : List Char) (pos : Nat) : Nat :=
  if pos ≤ s.length then (findIn pattern (s.drop pos) pos).getD npos else npos

/-- `std::string::substr`, which throws when it would start past the end. -/
def substr (s : List Char) (pos count : Nat) : Option (List Char) :=
  if pos ≤ s.length then some ((s.drop pos).take count) else none

/-- The arithmetic of `size_t`. -/
def sizeT (n : Int) : Nat := (n % UInt64.size).toNat

/-! ## The object and the bus -/

/-- A call issued by the object and not ended. -/
structure Subscription where
  handle : LSHandle
  token : LSMessageToken
  uri : String
  params : String
  epoch : Nat
deriving Repr, DecidableEq

structure PersistentSubscription where
  mHandle : Option LSHandle
  mSubscriptionCall : LSMessageToken
  mServiceStatus : ServerStatus
  mUri : String
  mParams : String
  mResultHandler : Option Nat
deriving Repr

inductive SubscribeError
  | nullHandle
  | nullHandler
  | invalidParams
  | invalidUri
  | outOfRange
  | status (e : StatusError)
  | call
deriving Repr, DecidableEq

/-- What `LSRegisterServerStatusEx` does. With `threw` the service is up, the callback is
invoked before the function returns, and its `LSCall` fails; `early` says whether the cookie
has been written by then. -/
inductive Registering
  | failed
  | registered
  | threw (early : Bool)
deriving Repr, DecidableEq

def Registering.throws : Registering → Bool
  | .threw _ => true
  | _ => false

/-- How a `subscribe` that comes to the registration ends. -/
def Registering.result : Registering → Except SubscribeError Unit
  | .failed => .error (.status .registerServerStatus)
  | .registered => .ok ()
  | .threw _ => .error .call

/-- The part of `subscribe` that takes the service name out of the URI. -/
def serviceName (uri : List Char) : Except SubscribeError (List Char) :=
  let first_slash := find uri "://".toList 0
  let second_slash := find uri "/".toList (sizeT (first_slash + 3))
  if first_slash == npos || second_slash == npos then .error .invalidUri
  else
    match substr uri (sizeT (first_slash + 3)) (sizeT (second_slash - first_slash - 3)) with
    | none => .error .outOfRange
    | some name => .ok name

structure Subscriber where
  sub : PersistentSubscription
  bus : StatusBus
  calls : List Subscription
  subscribes : Nat
deriving Repr

namespace Subscriber

def init : Subscriber where
  sub :=
    { mHandle := none, mSubscriptionCall := LSMESSAGE_TOKEN_INVALID, mServiceStatus := .init,
      mUri := "", mParams := "", mResultHandler := none }
  bus := ⟨[], 0⟩
  calls := []
  subscribes := 0

/-- `LSCallCancel`, which ends the call with a token on a handle, or fails. -/
def lsCallCancel (s : Subscriber) (handle : Option LSHandle) (token : LSMessageToken)
    (endsCall : Bool) : Subscriber :=
  if endsCall then
    { s with calls := s.calls.filter fun c => !(some c.handle == handle && c.token == token) }
  else s

/-- `PersistentSubscription::cancelSubscription`; a failure of `LSCallCancel` is not looked at. -/
def cancelSubscription (s : Subscriber) (endsCall : Bool) : Subscriber :=
  if s.sub.mSubscriptionCall != LSMESSAGE_TOKEN_INVALID then
    let s := s.lsCallCancel s.sub.mHandle s.sub.mSubscriptionCall endsCall
    { s with sub := { s.sub with mSubscriptionCall := LSMESSAGE_TOKEN_INVALID } }
  else s

/-- `PersistentSubscription::cancel`. -/
def cancel (s : Subscriber) (cancelOk endsCall : Bool) : Except SubscribeError Unit × Subscriber :=
  let s := { s with sub := { s.sub with mParams := "", mResultHandler := none } }
  match s.sub.mServiceStatus.cancel s.bus cancelOk with
  | (.error e, status, bus) =>
      (.error (.status e), { s with sub := { s.sub with mServiceStatus := status }, bus := bus })
  | (.ok (), status, bus) =>
      (.ok (), cancelSubscription
        { s with sub := { s.sub with mServiceStatus := status }, bus := bus } endsCall)

/-- `PersistentSubscription::onServiceStatusResponse`, given the token of `LSCall` or none
where it fails. The Boolean says whether an error is thrown. -/
def onServiceStatusResponse (s : Subscriber) (serviceUp : Bool) (outcome : Option LSMessageToken)
    (endsCall : Bool) : Bool × Subscriber :=
  if serviceUp && s.sub.mSubscriptionCall == LSMESSAGE_TOKEN_INVALID then
    match s.sub.mHandle, outcome with
    | some handle, some token =>
        (false, { s with
          calls := s.calls ++ [⟨handle, token, s.sub.mUri, s.sub.mParams, s.subscribes⟩]
          sub := { s.sub with mSubscriptionCall := token } })
    | _, _ => (true, s)
  else if !serviceUp && s.sub.mSubscriptionCall != LSMESSAGE_TOKEN_INVALID then
    (false, s.cancelSubscription endsCall)
  else (false, s)

/-- The callback has no use for the watch, so it may come before the cookie is written. -/
theorem onServiceStatusResponse_status (s : Subscriber) (status : ServerStatus) (serviceUp : Bool)
    (outcome : Option LSMessageToken) (endsCall : Bool) :
    let r := s.onServiceStatusResponse serviceUp outcome endsCall
    onServiceStatusResponse { s with sub := { s.sub with mServiceStatus := status } } serviceUp
        outcome endsCall =
      (r.1, { r.2 with sub := { r.2.sub with mServiceStatus := status } }) := by
  unfold onServiceStatusResponse cancelSubscription lsCallCancel
  dsimp only
  split
  · split <;> rfl
  · split
    · split
      · split <;> rfl
      · rfl
    · rfl

/-- A failing `LSCall` changes nothing. -/
theorem onServiceStatusResponse_failed (s : Subscriber) (endsCall : Bool) :
    (s.onServiceStatusResponse true none endsCall).2 = s := by
  unfold onServiceStatusResponse
  simp only [Bool.true_and, Bool.not_true, Bool.false_and, Bool.false_eq_true, if_false]
  split
  · cases s.sub.mHandle <;> rfl
  · rfl

/-- The watch part of `subscribe`. The token is invalid after the cancel, so a callback that
is invoked inside of the registration tries its `LSCall`. -/
def watch (s : Subscriber) (handle : LSHandle) (serviceName : List Char) (cancelOk : Bool)
    (registering : Registering) : Except SubscribeError Unit × Subscriber :=
  match s.sub.mServiceStatus.set s.bus handle serviceName s.subscribes cancelOk
      (registering != .failed) with
  | (.error e, status, bus) =>
      (.error (.status e), { s with sub := { s.sub with mServiceStatus := status }, bus := bus })
  | (.ok (), status, bus) =>
      match registering with
      | .threw early =>
          let status := if early then status else { status with mCookie := none }
          let s := { s with sub := { s.sub with mServiceStatus := status }, bus := bus }
          (.error .call, (s.onServiceStatusResponse true none true).2)
      | _ => (.ok (), { s with sub := { s.sub with mServiceStatus := status }, bus := bus })

/-- `PersistentSubscription::subscribe`. -/
def subscribe (pf : Platform) (s : Subscriber) (handle : Option LSHandle) (uri : String)
    (params : JValue) (handler : Option Nat) (cancelOk endsCall : Bool)
    (registering : Registering) : Except SubscribeError Unit × Subscriber :=
  match cancel { s with subscribes := s.subscribes + 1 } cancelOk endsCall with
  | (.error e, s) => (.error e, s)
  | (.ok (), s) =>
      match handle, handler with
      | none, _ => (.error .nullHandle, s)
      | some _, none => (.error .nullHandler, s)
      | some handle, some handler =>
          if !params.isValid then (.error .invalidParams, s)
          else
            let first_slash := find uri.toList "://".toList 0
            let second_slash := find uri.toList "/".toList (sizeT (first_slash + 3))
            if first_slash == npos || second_slash == npos then (.error .invalidUri, s)
            else
              let s :=
                { s with
                  sub :=
                    { s.sub with
                      mHandle := some handle
                      mUri := uri
                      mParams := pf.serialize params
                      mResultHandler := some handler } }
              match substr uri.toList (sizeT (first_slash + 3))
                  (sizeT (second_slash - first_slash - 3)) with
              | none => (.error .outOfRange, s)
              | some serviceName => s.watch handle serviceName cancelOk registering

/-! ## Runs -/

inductive Event
  | subscribe (handle : Option LSHandle) (uri : String) (params : JValue) (handler : Option Nat)
      (cancelOk endsCall : Bool) (registering : Registering)
  | cancel (cancelOk endsCall : Bool)
  | notify (cookie : Nat) (serviceUp : Bool) (outcome : Option LSMessageToken) (endsCall : Bool)

/-- A token is valid and not one of an outstanding call. -/
def freshToken (s : Subscriber) : Option LSMessageToken → Bool
  | none => true
  | some token => token != LSMESSAGE_TOKEN_INVALID && s.calls.all fun c => c.token != token

/-- A notification comes only for a registration on the bus. -/
def step (pf : Platform) (s : Subscriber) : Event → Option Subscriber
  | .subscribe handle uri params handler cancelOk endsCall registering =>
      some (s.subscribe pf handle uri params handler cancelOk endsCall registering).2
  | .cancel cancelOk endsCall => some (s.cancel cancelOk endsCall).2
  | .notify cookie serviceUp outcome endsCall =>
      if (s.bus.registrations.any fun r => r.cookie == cookie) && s.freshToken outcome then
        some (s.onServiceStatusResponse serviceUp outcome endsCall).2
      else none

end Subscriber

end LSHelpers
