import Mathlib.Data.List.AList
import Mathlib.Logic.Function.Basic
import LSHelpers.Luna
import LSHelpers.Transition.Run

/-!
# Calls made through a service point

`Caller` is a `ServicePoint` as far as its calls go, with the `Call` objects on the
heap, the calls that are live on the bus and the handlers that have been started. A
`Call` object is known by its address, which the bus has as the context of the call
and `mCalls` has under the call's token. To read an address where no object is, is
what the code must never do; such a step has no outcome.

`step` is the machine of two threads: `makeCall` is the issue of the call, the storing
of its token in the object and the insertion into `mCalls`, and replies may come between
them.
-/

namespace LSHelpers

structure Call where
  token : LSMessageToken
  oneReply : Bool
deriving Repr, DecidableEq

structure ServicePoint where
  mHandle : Option LSHandle
  mCalls : AList fun _ : LSMessageToken => Nat

/-- A call on the bus. `callResponseHandler` gets its context; a call that nobody waits
for has none. -/
structure BusCall where
  token : LSMessageToken
  context : Option Nat
deriving Repr, DecidableEq

/-- A `makeCall` under way, after its `LSCall`. -/
structure Issued where
  address : Nat
  token : LSMessageToken
deriving Repr, DecidableEq

/-- The start of a response handler. -/
structure Invocation where
  address : Nat
  oneReply : Bool
deriving Repr, DecidableEq

structure Caller where
  point : Option ServicePoint
  heap : Nat → Option Call
  nextAddress : Nat
  issued : List Issued
  stored : List Issued
  live : List BusCall
  started : List Invocation

namespace Caller

def init (handle : Option LSHandle) : Caller where
  point := some ⟨handle, ∅⟩
  heap := fun _ => none
  nextAddress := 0
  issued := []
  stored := []
  live := []
  started := []

/-- The address `mCalls` has under a token. -/
def entryAt (s : Caller) (token : LSMessageToken) : Option Nat :=
  s.point.bind fun p => p.mCalls.lookup token

def lsCallCancel (s : Caller) (token : LSMessageToken) : Caller :=
  { s with live := s.live.filter fun b => b.token != token }

/-- `mCalls.erase`, which deletes the object. -/
def eraseCall (s : Caller) (p : ServicePoint) (token : LSMessageToken) : Caller :=
  { s with
    point := some { p with mCalls := p.mCalls.erase token }
    heap :=
      match p.mCalls.lookup token with
      | some address => Function.update s.heap address none
      | none => s.heap }

/-- The first part of `makeCall` with a handler: the object is made and `LSCall`
succeeds. -/
def issue (s : Caller) (oneReply : Bool) (token : LSMessageToken) : Caller :=
  { s with
    heap := Function.update s.heap s.nextAddress (some ⟨0, oneReply⟩)
    nextAddress := s.nextAddress + 1
    issued := s.issued ++ [⟨s.nextAddress, token⟩]
    live := s.live ++ [⟨token, some s.nextAddress⟩] }

/-- The second part: the object is given its token. -/
def store (s : Caller) (i : Issued) : Caller :=
  { s with
    heap := Function.update s.heap i.address
      ((s.heap i.address).map fun call => { call with token := i.token })
    issued := s.issued.erase i
    stored := s.stored ++ [i] }

/-- The last part, under the mutex. An object that was under the token before is
deleted. -/
def insert (s : Caller) (p : ServicePoint) (i : Issued) : Caller :=
  { s.eraseCall p i.token with
    point := some { p with mCalls := p.mCalls.insert i.token i.address }
    stored := s.stored.erase i }

/-- The calls whose `makeCall` has not returned. -/
def pending (s : Caller) : List Issued := s.issued ++ s.stored

/-- `makeCall` without a handler, when `LSCallOneReply` succeeds. -/
def fireAndForget (s : Caller) (token : LSMessageToken) : Caller :=
  { s with live := s.live ++ [⟨token, none⟩] }

/-- `cancelCall(Call*)`. -/
def cancelCallObject (s : Caller) (p : ServicePoint) (address : Nat) : Option Caller :=
  (s.heap address).map fun call => (s.lsCallCancel call.token).eraseCall p call.token

/-- `cancelCall(LSMessageToken)`. -/
def cancelCall (s : Caller) (p : ServicePoint) (token : LSMessageToken) : Option Caller :=
  match p.mCalls.lookup token with
  | none => some (s.lsCallCancel token)
  | some address => s.cancelCallObject p address

/-- The calls part of the destructor. -/
def destroy (s : Caller) (p : ServicePoint) : Caller :=
  { s with
    point := none
    heap := fun address =>
      if address ∈ p.mCalls.entries.map Sigma.snd then none else s.heap address
    live := s.live.filter fun b => b.token ∉ p.mCalls.keys }

def startHandler (s : Caller) (address : Nat) (oneReply : Bool) : Caller :=
  { s with started := s.started ++ [⟨address, oneReply⟩] }

/-- `callResponseHandler`: the object is cleaned up before the handler starts. What the
handler does with the service point comes after. -/
def callResponseHandler (s : Caller) (address : Nat) : Option Caller :=
  (s.heap address).bind fun call =>
    let cleaned :=
      if call.oneReply then s.point.bind fun p => s.cancelCallObject p address else some s
    cleaned.map fun s => s.startHandler address call.oneReply

/-- A reply arrives. A call made with `LSCallOneReply` is over with it. -/
def reply (s : Caller) (token : LSMessageToken) : Option Caller :=
  match s.live.find? fun b => b.token == token with
  | none => none
  | some ⟨_, none⟩ => some (s.lsCallCancel token)
  | some ⟨_, some address⟩ => s.callResponseHandler address

/-- A token the bus may give to a new call. -/
def freshToken (s : Caller) (token : LSMessageToken) : Bool :=
  token != LSMESSAGE_TOKEN_INVALID && s.live.all fun b => b.token != token

/-! ## Two threads -/

inductive Event
  | issue (oneReply : Bool) (token : LSMessageToken)
  | store (address : Nat)
  | insert (address : Nat)
  | fireAndForget (token : LSMessageToken)
  | reply (token : LSMessageToken)
  | cancelCall (token : LSMessageToken)
  | destroy
deriving Repr, DecidableEq

/-- The service point has a handle to call through, and is not destroyed. -/
def withHandle (s : Caller) (f : ServicePoint → Option Caller) : Option Caller :=
  s.point.bind fun p => if p.mHandle.isSome then f p else none

/-- A token is not cancelled before `makeCall` has returned it, and the object is not
destroyed under a running `makeCall`. -/
def step (s : Caller) : Event → Option Caller
  | .issue oneReply token =>
      s.withHandle fun _ => if s.freshToken token then some (s.issue oneReply token) else none
  | .store address =>
      s.withHandle fun _ => (s.issued.find? fun i => i.address == address).map s.store
  | .insert address =>
      s.withHandle fun p => (s.stored.find? fun i => i.address == address).map (s.insert p)
  | .fireAndForget token =>
      s.withHandle fun _ => if s.freshToken token then some (s.fireAndForget token) else none
  | .reply token => s.reply token
  | .cancelCall token =>
      s.withHandle fun p =>
        if s.pending.all fun i => i.token != token then s.cancelCall p token else none
  | .destroy => s.point.bind fun p => if s.pending.isEmpty then some (s.destroy p) else none

/-! ## One thread -/

inductive CallError
  | noHandle
  | lsError
  | logicError
deriving Repr, DecidableEq

/-- The three parts of `makeCall` with a handler, one after the other. -/
def made (s : Caller) (p : ServicePoint) (oneReply : Bool) (token : LSMessageToken) : Caller :=
  let call : Issued := ⟨s.nextAddress, token⟩
  ((s.issue oneReply token).store call).insert p call

/-- `makeCall`, given the token of `LSCall` or `LSCallOneReply`, or none where it fails. -/
def makeCall (s : Caller) (p : ServicePoint) (hasHandler oneReply : Bool)
    (outcome : Option LSMessageToken) : Except CallError LSMessageToken × Caller :=
  if p.mHandle.isNone then (.error .noHandle, s)
  else if hasHandler then
    match outcome with
    | none => (.error .lsError, s)
    | some token => (.ok token, s.made p oneReply token)
  else if !oneReply then (.error .logicError, s)
  else
    match outcome with
    | none => (.error .lsError, s)
    | some token => (.ok token, s.fireAndForget token)

inductive CallEvent
  | makeCall (hasHandler oneReply : Bool) (outcome : Option LSMessageToken)
  | reply (token : LSMessageToken)
  | cancelCall (token : LSMessageToken)
  | destroy
deriving Repr, DecidableEq

/-- A token is given only by a call that is made. -/
def canGive (s : Caller) (p : ServicePoint) (hasHandler oneReply : Bool) :
    Option LSMessageToken → Bool
  | none => true
  | some token => p.mHandle.isSome && (hasHandler || oneReply) && s.freshToken token

/-- One use of the service point. A handler uses it after its own clean-up, so what it
does follows its reply in a run. -/
def callStep (s : Caller) : CallEvent → Option Caller
  | .makeCall hasHandler oneReply outcome =>
      s.point.bind fun p =>
        if s.canGive p hasHandler oneReply outcome then
          some (s.makeCall p hasHandler oneReply outcome).2
        else none
  | .reply token => s.reply token
  | .cancelCall token => s.withHandle fun p => s.cancelCall p token
  | .destroy => s.point.map s.destroy

end Caller

end LSHelpers
