import LSHelpers.Json.Parser

/-!
# One luna call and its request object

`Exchange` is everything a luna call owns while it is handled: the `JsonRequest`
with its two flags, who keeps it alive (the scope of `handleLunaCall` and the
copies of the deferred response function), the replies sent so far, and how far
`handleLunaCall` has come. A reply is recorded as the JSON value whose text is
sent, with the place in the code that sent it.

`LS::Message::respond` may fail: `Bus.respond` gives the error of the `n`-th
attempt, if it has one.
-/

namespace LSHelpers

structure Bus where
  respond : Nat → Option String

/-- What can be thrown inside `handleLunaCall`. An `ErrorResponse` is a JSON object. -/
inductive Exn
  | jsonParseError (e : JsonParseError)
  | errorResponse (e : Json)
  | lsError (message : String)
  | stdException
  | unknown

def errorResponse (pf : Platform) (errorCode : Nat) (format : String) : Json :=
  .object [("returnValue", .bool false), ("errorCode", .number errorCode),
    ("errorMessage", .string (pf.format format))]

def apiErrorMalformedJson (pf : Platform) : Json := errorResponse pf 2 "Malformed JSON"

def apiErrorSchemaValidation (pf : Platform) (format : String) : Json := errorResponse pf 3 format

def apiErrorNoResponse (pf : Platform) : Json :=
  errorResponse pf 4 "The service did not send a reply"

/-- The place a reply was sent from. -/
inductive Sender
  | handlerResult
  | deferredFunction
  | errorReply
  | destructor
deriving Repr, DecidableEq

structure Reply where
  sender : Sender
  payload : Json
deriving Repr

structure JsonRequest where
  params : JValue
  mDeferred : Bool
  mResponded : Bool
deriving Repr

/-- How far `handleLunaCall` has come: inside the handler, between the handler's
return and the settling of the flags, or out with a result or an exception. -/
inductive Phase
  | running
  | returned (result : JValue)
  | finished (result : Except Exn Bool)

structure Exchange where
  request : Option JsonRequest
  scope : Bool
  copies : Nat
  phase : Phase
  attempts : Nat
  replies : List Reply
  handlerRuns : List JValue
  terminated : Bool

/-- What `respond` sends for a response; `none` when it throws instead. -/
def responseObject : JValue → Option Json
  | .valid (.object ms) => some (.object ms)
  | .valid (.bool true) => some (.object [("returnValue", .bool true)])
  | _ => none

namespace Exchange

variable (pf : Platform) (b : Bus) (s : Exchange)

/-- `LS::Message::respond`. -/
def send (sender : Sender) (payload : Json) : Except Exn Unit × Exchange :=
  match b.respond s.attempts with
  | none =>
      (.ok (), { s with attempts := s.attempts + 1, replies := s.replies ++ [⟨sender, payload⟩] })
  | some e => (.error (.lsError e), { s with attempts := s.attempts + 1 })

def setDeferred : Exchange :=
  { s with request := s.request.map fun r => { r with mDeferred := true } }

def setResponded (value : Bool) : Exchange :=
  { s with request := s.request.map fun r => { r with mResponded := value } }

/-- `JsonRequest::respond`. -/
def respond (sender : Sender) (response : JValue) : Except Exn Unit × Exchange :=
  match responseObject response with
  | none => (.error (.lsError "Response is not a JSON object"), s)
  | some payload =>
      match s.send b sender payload with
      | (.ok (), s) => (.ok (), s.setResponded true)
      | (.error e, s) => (.error e, s)

/-- `JsonRequest::~JsonRequest`. An exception that leaves it ends the program. -/
def destroyRequest : Exchange :=
  match s.request with
  | none => s
  | some r =>
      let s :=
        if !r.mResponded then
          match s.respond b .destructor (.valid (apiErrorNoResponse pf)) with
          | (.ok (), s) => s
          | (.error _, s) => { s with terminated := true }
        else s
      { s with request := none }

/-- The request is destroyed with its last owner. -/
def release : Exchange :=
  if !s.scope && s.copies == 0 then s.destroyRequest pf b else s

def leaveScope : Exchange := release pf b { s with scope := false }

/-- The catch clauses of `handleLunaCall`. -/
def catchClause (e : Exn) : Exchange :=
  match e with
  | .jsonParseError e => reply (apiErrorSchemaValidation pf e.message)
  | .errorResponse e => reply e
  | .lsError _ | .stdException | .unknown => { s with phase := .finished (.ok false) }
where
  reply (payload : Json) : Exchange :=
    match s.send b .errorReply payload with
    | (.ok (), s) => { s with phase := .finished (.ok true) }
    | (.error e, s) => { s with phase := .finished (.error e) }

/-- `handleLunaCall` after the handler has returned `result`. -/
def settle (result : JValue) : Exchange :=
  if (s.request.map JsonRequest.mDeferred).getD false then
    { (s.setResponded false).leaveScope pf b with phase := .finished (.ok true) }
  else
    match s.respond b .handlerResult result with
    | (.ok (), s) => { s.leaveScope pf b with phase := .finished (.ok true) }
    | (.error e, s) => (s.leaveScope pf b).catchClause pf b e

/-- `handleLunaCall` after the handler has thrown: the scope is unwound first. -/
def unwind (e : Exn) : Exchange := (s.leaveScope pf b).catchClause pf b e

end Exchange

/-- The schema check at the top of `handleLunaCall`, with the error it throws. -/
def validate (pf : Platform) (payload : String) (schema : pf.JSchema) : Except Json JValue :=
  let value := pf.fromString payload schema
  if !value.isValid then
    if !(pf.fromString payload pf.allSchema).isValid then .error (apiErrorMalformedJson pf)
    else .error (apiErrorSchemaValidation pf "Failed to validate luna request against schema")
  else .ok value

namespace Exchange

/-- A message that has arrived, before a request object exists. -/
def arrived : Exchange :=
  { request := none, scope := false, copies := 0, phase := .running, attempts := 0,
    replies := [], handlerRuns := [], terminated := false }

/-- The request object is made, marked as responded, and the handler is entered. -/
def enterHandler (params : JValue) : Exchange :=
  { arrived with
    request := some ⟨params, false, true⟩
    scope := true
    handlerRuns := [params] }

/-- `handleLunaCall` up to the call of the handler. -/
def start (pf : Platform) (b : Bus) (payload : String) (schema : pf.JSchema) : Exchange :=
  match validate pf payload schema with
  | .error e => arrived.catchClause pf b (.errorResponse e)
  | .ok value => enterHandler value

/-! ## What may happen to a request -/

/-- `defer`, and what anyone holding a deferred response function can do with it. -/
inductive Action
  | defer
  | copy
  | invoke (response : JValue)
  | drop

/-- Only the handler has the request to defer; the rest takes a copy of the function. -/
def canAct (s : Exchange) : Action → Bool
  | .defer =>
      match s.phase with
      | .running => true
      | _ => false
  | .copy | .invoke _ | .drop => s.copies != 0

def act (pf : Platform) (b : Bus) (s : Exchange) : Action → Exchange
  | .defer => { s.setDeferred with copies := s.copies + 1 }
  | .copy => { s with copies := s.copies + 1 }
  | .invoke response => (s.respond b .deferredFunction response).2
  | .drop => release pf b { s with copies := s.copies - 1 }

inductive Event
  | act (a : Action)
  | handlerReturns (result : JValue)
  | handlerThrows (e : Exn)
  | settle

/-- One event of the exchange. Actions of other parties come at any time, also
between the handler's return and the settling of the flags. -/
def step (pf : Platform) (b : Bus) (s : Exchange) (e : Event) : Option Exchange :=
  if s.terminated then none
  else
    match e, s.phase with
    | .act a, _ => if s.canAct a then some (s.act pf b a) else none
    | .handlerReturns result, .running => some { s with phase := .returned result }
    | .handlerThrows e, .running => some (s.unwind pf b e)
    | .settle, .returned result => some (s.settle pf b result)
    | _, _ => none

end Exchange

/-! ## A call from beginning to end -/

inductive Outcome
  | returns (result : JValue)
  | throws (e : Exn)

/-- What a handler does with a request: its actions, then how it ends. -/
structure Script where
  actions : List Exchange.Action
  outcome : Outcome

abbrev Handler := JValue → Script

/-- An action nobody can take is not taken. -/
def Exchange.perform (pf : Platform) (b : Bus) (s : Exchange) (a : Exchange.Action) : Exchange :=
  if s.canAct a then s.act pf b a else s

/-- `JsonRequest::handleLunaCall` with no other party interfering. -/
def handleLunaCall (pf : Platform) (b : Bus) (payload : String) (schema : pf.JSchema)
    (handler : Handler) : Exchange :=
  match validate pf payload schema with
  | .error e => Exchange.arrived.catchClause pf b (.errorResponse e)
  | .ok value =>
      let script := handler value
      let s := script.actions.foldl (Exchange.perform pf b) (.enterHandler value)
      match script.outcome with
      | .returns result => s.settle pf b result
      | .throws e => s.unwind pf b e

end LSHelpers
