import LSHelpers.Request.Exchange

/-!
# Replies of a call that is not deferred

With a bus that takes every reply, a call whose handler does not defer ends with
a Boolean, and that Boolean says whether the one reply was sent.
-/

namespace LSHelpers

/-- `LS::Message::respond` always succeeds. -/
def Bus.Reliable (b : Bus) : Prop := ∀ n, b.respond n = none

def Bus.reliable : Bus := ⟨fun _ => none⟩

theorem Bus.reliable_reliable : Bus.reliable.Reliable := fun _ => rfl

namespace Exchange

section Reliable

variable {pf : Platform} {b : Bus} (hb : b.Reliable) (s : Exchange)
include hb

theorem send_reliable (sender : Sender) (payload : Json) :
    s.send b sender payload =
      (.ok (), { s with
        attempts := s.attempts + 1
        replies := s.replies ++ [⟨sender, payload⟩] }) := by
  simp [send, hb s.attempts]

/-- `respond` sends exactly what `responseObject` gives, and throws otherwise. -/
theorem respond_reliable (sender : Sender) (response : JValue) :
    s.respond b sender response =
      match responseObject response with
      | none => (.error (.lsError "Response is not a JSON object"), s)
      | some payload =>
          (.ok (), setResponded { s with
            attempts := s.attempts + 1
            replies := s.replies ++ [⟨sender, payload⟩] } true) := by
  unfold respond
  cases responseObject response with
  | none => rfl
  | some payload => simp only [send_reliable hb]

end Reliable

variable (pf : Platform) (b : Bus)

/-- Without a copy of the deferred function there is nothing to do but to defer. -/
theorem perform_of_no_copies {s : Exchange} {a : Action} (hs : s.copies = 0) (ha : a ≠ .defer) :
    perform pf b s a = s := by
  cases a with
  | defer => exact absurd rfl ha
  | copy | invoke _ | drop => simp [perform, canAct, hs]

theorem foldl_perform_of_no_copies {s : Exchange} {actions : List Action} (hs : s.copies = 0)
    (ha : .defer ∉ actions) : actions.foldl (perform pf b) s = s := by
  induction actions with
  | nil => rfl
  | cons a actions ih =>
      rw [List.mem_cons, not_or] at ha
      rw [List.foldl_cons, perform_of_no_copies pf b hs (Ne.symm ha.1), ih ha.2]

/-! ## The ways a handler that does not defer can end -/

/-- The request is let go with its flag up, so its destructor sends nothing. -/
theorem leaveScope_of_responded {s : Exchange} {r : JsonRequest} (hs : s.request = some r)
    (hr : r.mResponded = true) (hc : s.copies = 0) :
    s.leaveScope pf b = { s with scope := false, request := none } := by
  simp [leaveScope, release, destroyRequest, hs, hr, hc]

theorem settle_enterHandler {b : Bus} (hb : b.Reliable) (params result : JValue) :
    (enterHandler params).settle pf b result =
      { enterHandler params with
        request := none
        scope := false
        attempts := (responseObject result).toList.length
        replies := (responseObject result).toList.map (Reply.mk .handlerResult)
        phase := .finished (.ok (responseObject result).isSome) } := by
  have hdeferred : ((enterHandler params).request.map JsonRequest.mDeferred).getD false = false :=
    rfl
  simp only [settle, hdeferred, Bool.false_eq_true, if_false, respond_reliable hb]
  cases h : responseObject result with
  | none =>
      dsimp only
      rw [leaveScope_of_responded pf b (r := ⟨params, false, true⟩) rfl rfl rfl]
      rfl
  | some payload =>
      dsimp only
      rw [leaveScope_of_responded pf b (r := ⟨params, false, true⟩) rfl rfl rfl]
      rfl

/-- The reply a thrown exception is answered with, if it is answered at all. -/
def thrownReply (pf : Platform) : Exn → Option Json
  | .jsonParseError e => some (apiErrorSchemaValidation pf e.message)
  | .errorResponse e => some e
  | .lsError _ | .stdException | .unknown => none

theorem catchClause_reliable {b : Bus} (hb : b.Reliable) (s : Exchange) (e : Exn) :
    s.catchClause pf b e =
      { s with
        attempts := s.attempts + (thrownReply pf e).toList.length
        replies := s.replies ++ (thrownReply pf e).toList.map (Reply.mk .errorReply)
        phase := .finished (.ok (thrownReply pf e).isSome) } := by
  cases e <;> simp [catchClause, catchClause.reply, thrownReply, send_reliable hb]

theorem unwind_enterHandler {b : Bus} (hb : b.Reliable) (params : JValue) (e : Exn) :
    (enterHandler params).unwind pf b e =
      { enterHandler params with
        request := none
        scope := false
        attempts := (thrownReply pf e).toList.length
        replies := (thrownReply pf e).toList.map (Reply.mk .errorReply)
        phase := .finished (.ok (thrownReply pf e).isSome) } := by
  rw [unwind, leaveScope_of_responded pf b (r := ⟨params, false, true⟩) rfl rfl rfl,
    catchClause_reliable pf hb]
  simp [enterHandler, arrived]

end Exchange

/-! ## The call as a whole -/

/-- What is asked of a finished call: at most one reply, reported by the Boolean, and
none from the destructor; the handler entered at most once, on a validated payload;
and the error code of a payload that does not validate. -/
structure OneReply (pf : Platform) (payload : String) (schema : pf.JSchema) (s : Exchange) :
    Prop where
  atMostOne : s.replies.length ≤ 1
  returnsTrue : s.phase = .finished (.ok true) ↔ s.replies.length = 1
  returnsFalse : s.phase = .finished (.ok false) ↔ s.replies.length = 0
  returns : ∃ handled, s.phase = .finished (.ok handled)
  handlerOnce : s.handlerRuns.length ≤ 1
  handlerValidated : ∀ value ∈ s.handlerRuns,
    value = pf.fromString payload schema ∧ value.isValid = true
  notJson : (pf.fromString payload schema).isValid = false →
    (pf.fromString payload pf.allSchema).isValid = false →
      s.handlerRuns = [] ∧ s.replies = [⟨.errorReply, errorResponse pf 2 "Malformed JSON"⟩]
  notSchema : (pf.fromString payload schema).isValid = false →
    (pf.fromString payload pf.allSchema).isValid = true →
      s.handlerRuns = [] ∧ s.replies = [⟨.errorReply,
        errorResponse pf 3 "Failed to validate luna request against schema"⟩]
  destructorSilent : ∀ reply ∈ s.replies, reply.sender ≠ .destructor

/-- A payload that validates is what the handler is run on, and its ending decides
whether there is a reply. -/
theorem OneReply.of_handler {pf : Platform} {payload : String} {schema : pf.JSchema}
    {s : Exchange} {sender : Sender} (answer : Option Json)
    (hvalid : (pf.fromString payload schema).isValid = true) (hsender : sender ≠ .destructor)
    (hruns : s.handlerRuns = [pf.fromString payload schema])
    (hreplies : s.replies = answer.toList.map (Reply.mk sender))
    (hphase : s.phase = .finished (.ok answer.isSome)) : OneReply pf payload schema s where
  atMostOne := by cases answer <;> simp [hreplies]
  returnsTrue := by cases answer <;> simp [hreplies, hphase]
  returnsFalse := by cases answer <;> simp [hreplies, hphase]
  returns := ⟨_, hphase⟩
  handlerOnce := by simp [hruns]
  handlerValidated := by
    intro value hvalue
    rw [hruns, List.mem_singleton] at hvalue
    exact ⟨hvalue, hvalue ▸ hvalid⟩
  notJson := by simp [hvalid]
  notSchema := by simp [hvalid]
  destructorSilent := by cases answer <;> simp [hreplies, hsender]

/-- A payload that does not validate is answered without a request object. -/
theorem OneReply.of_invalid {pf : Platform} {b : Bus} (hb : b.Reliable) {payload : String}
    {schema : pf.JSchema} {e : Json} (h : validate pf payload schema = .error e) :
    OneReply pf payload schema (Exchange.arrived.catchClause pf b (.errorResponse e)) := by
  rw [Exchange.catchClause_reliable pf hb]
  unfold validate at h
  dsimp only at h
  split at h
  · rename_i hinvalid
    rw [Bool.not_eq_true'] at hinvalid
    split at h <;> cases h <;>
      constructor <;> simp_all [Exchange.arrived, Exchange.thrownReply, apiErrorMalformedJson,
        apiErrorSchemaValidation]
  · cases h

theorem validate_ok {pf : Platform} {payload : String} {schema : pf.JSchema} {value : JValue}
    (h : validate pf payload schema = .ok value) :
    value = pf.fromString payload schema ∧ value.isValid = true := by
  unfold validate at h
  dsimp only at h
  split at h
  · split at h <;> cases h
  · rename_i hvalid
    cases h
    exact ⟨rfl, by simpa using hvalid⟩

/-- For every payload, schema verdict and handler that does not defer. -/
theorem handleLunaCall_oneReply (pf : Platform) (b : Bus) (hb : b.Reliable) (payload : String)
    (schema : pf.JSchema) (handler : Handler)
    (hdefer : ∀ params, .defer ∉ (handler params).actions) :
    OneReply pf payload schema (handleLunaCall pf b payload schema handler) := by
  unfold handleLunaCall
  cases h : validate pf payload schema with
  | error e => exact OneReply.of_invalid hb h
  | ok value =>
      rcases validate_ok h with ⟨rfl, hvalid⟩
      dsimp only
      rw [Exchange.foldl_perform_of_no_copies pf b rfl (hdefer _)]
      cases (handler (pf.fromString payload schema)).outcome with
      | returns result =>
          dsimp only
          rw [Exchange.settle_enterHandler pf hb]
          have hsender : Sender.handlerResult ≠ .destructor := by decide
          exact OneReply.of_handler (responseObject result) hvalid hsender rfl rfl rfl
      | throws e =>
          dsimp only
          rw [Exchange.unwind_enterHandler pf hb]
          have hsender : Sender.errorReply ≠ .destructor := by decide
          exact OneReply.of_handler (Exchange.thrownReply pf e) hvalid hsender rfl rfl rfl

/-- A call with an empty object, answered with `true`. -/
theorem handleLunaCall_oneReply_true :
    OneReply .ofEmptyObject "\x7b\x7d" ()
      (handleLunaCall .ofEmptyObject .reliable "\x7b\x7d" ()
        fun _ => ⟨[], .returns (.valid (.bool true))⟩) :=
  handleLunaCall_oneReply _ _ Bus.reliable_reliable _ _ _ fun _ => by simp

end LSHelpers
