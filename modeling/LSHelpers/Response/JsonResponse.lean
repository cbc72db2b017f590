import LSHelpers.Json.Reading

/-!
# Responses

`handleLunaResponse` turns a bus message into the `JsonResponse` its handler is given.
The success of the call is a flag beside the parser; the parser itself is made of the
payload, or of null where there is none to be had, and null has no fields but is no
error either.
-/

namespace LSHelpers

open JsonParser

/-- What `handleLunaResponse` asks of a message of the bus. -/
structure ResponseMessage where
  isHubError : Bool
  getPayload : String
deriving Repr, DecidableEq

structure JsonResponse where
  parser : JsonParser
  mSuccess : Bool

namespace JsonResponse

def isSuccess (r : JsonResponse) : Bool := r.mSuccess

def hasErrors (r : JsonResponse) : Bool := !r.mSuccess || !(r.parser.finishParse false).2

/-- The payload and the success of a message. -/
def classify (pf : Platform) (schema : pf.JSchema) (msg : ResponseMessage) : JValue × Bool :=
  if msg.isHubError then (.valid .null, false)
  else
    let value := pf.fromString msg.getPayload schema
    if !value.isValid then (.valid .null, false) else (value, true)

/-- The response the handler is given. -/
def handleLunaResponse (pf : Platform) (schema : pf.JSchema) (msg : ResponseMessage) :
    JsonResponse :=
  let (payload, success) := classify pf schema msg
  ⟨.ofJson payload, success⟩

section

variable (pf : Platform) (schema : pf.JSchema) (msg : ResponseMessage)

/-- The payload is passed on, or null stands for it. -/
theorem handleLunaResponse_cases :
    (msg.isHubError = false ∧ (pf.fromString msg.getPayload schema).isValid = true ∧
      handleLunaResponse pf schema msg =
        ⟨.ofJson (pf.fromString msg.getPayload schema), true⟩) ∨
    ((msg.isHubError = true ∨ (pf.fromString msg.getPayload schema).isValid = false) ∧
      handleLunaResponse pf schema msg = ⟨.ofJson (.valid .null), false⟩) := by
  unfold handleLunaResponse classify
  cases msg.isHubError with
  | true => exact .inr ⟨.inl rfl, rfl⟩
  | false =>
      cases hvalid : (pf.fromString msg.getPayload schema).isValid with
      | true => exact .inl ⟨rfl, rfl, by simp [hvalid]⟩
      | false => exact .inr ⟨.inr rfl, by simp [hvalid]⟩

/-- A message counts as a success as soon as its payload is JSON. -/
theorem isSuccess_iff :
    (handleLunaResponse pf schema msg).isSuccess = true ↔
      msg.isHubError = false ∧ (pf.fromString msg.getPayload schema).isValid = true := by
  rcases handleLunaResponse_cases pf schema msg with ⟨hhub, hvalid, heq⟩ | ⟨hfailed, heq⟩
  · rw [heq]
    exact iff_of_true rfl ⟨hhub, hvalid⟩
  · rw [heq]
    refine iff_of_false Bool.false_ne_true ?_
    intro h
    rcases hfailed with hhub | hinvalid
    · simp [hhub] at h
    · simp [hinvalid] at h

theorem handleLunaResponse_of_not_success
    (h : (handleLunaResponse pf schema msg).isSuccess = false) :
    handleLunaResponse pf schema msg = ⟨.ofJson (.valid .null), false⟩ := by
  rcases handleLunaResponse_cases pf schema msg with ⟨_, _, heq⟩ | ⟨_, heq⟩
  · rw [heq] at h
    cases h
  · exact heq

/-- The message is no hub error and its payload an object with `returnValue` true. -/
def Succeeded : Prop :=
  msg.isHubError = false ∧ ∃ members,
    pf.fromString msg.getPayload schema = .valid (.object members) ∧
      members.lookup "returnValue" = some (.bool true)

theorem isSuccess_of_succeeded (h : Succeeded pf schema msg) :
    (handleLunaResponse pf schema msg).isSuccess = true := by
  rcases h with ⟨hhub, members, hpayload, _⟩
  rw [isSuccess_iff, hpayload]
  exact ⟨hhub, rfl⟩

end

/-! ## Requests on a response -/

section

variable (pf : Platform) {Var : Type} [DecidableEq Var] {Ty : Var → Type}

/-- What a handler asks of its response: a field into a variable, or a sub-object, whose
parser is one of its own. -/
inductive FieldRequest (Ty : Var → Type)
  | field (q : Request Ty)
  | getObject (name : String)

namespace FieldRequest

def run (fq : FieldRequest Ty) (s : JsonParser × Memory Ty) : JsonParser × Memory Ty :=
  match fq with
  | .field q => q.run pf s
  | .getObject name => ((s.1.getObject pf name).1, s.2)

def runAll (fqs : List (FieldRequest Ty)) (s : JsonParser × Memory Ty) : JsonParser × Memory Ty :=
  fqs.foldl (fun s fq => fq.run pf s) s

/-- The request does not have to find its field. -/
def optional : FieldRequest Ty → Bool
  | .field q => isOptional (q.modifiers.map Modifier.constraint)
  | .getObject _ => false

/-- On a value without members every field is absent. -/
theorem run_without_members (fq : FieldRequest Ty) (p : JsonParser) (m : Memory Ty)
    (h : p.jsonValue.members = []) :
    After p (fq.run pf (p, m)).1 0 (fq.optional = true) := by
  cases fq with
  | field q =>
      have habsent : p.jsonValue.members.lookup q.name = none := by
        rw [h]
        rfl
      exact q.run_absent pf p m habsent
  | getObject name =>
      have habsent : p.jsonValue.members.lookup name = none := by
        rw [h]
        rfl
      have hget : (p.get pf name (.valid .null) parseValueJValue).finishParse =
          (p.recordError name "mandatory but not present", .valid .null) := by
        simp [JsonParser.get, getImpl, JValue.hasKey, habsent, JsonParseContext.finishParse]
      have hmissing := After.recordError p name "mandatory but not present"
      have hobject := hmissing.trans
        (.recordError _ name "object expected but got something else")
      simp only [run, JsonParser.getObject, hget, JValue.isObject, Bool.not_false, if_true]
      exact hobject.congr rfl (by simp [optional])

/-- By induction on the requests, as the members stay as they are. -/
theorem runAll_without_members (fqs : List (FieldRequest Ty)) (p : JsonParser) (m : Memory Ty)
    (h : p.jsonValue.members = []) :
    After p (runAll pf fqs (p, m)).1 0 (∀ fq ∈ fqs, fq.optional = true) := by
  induction fqs generalizing p m with
  | nil => exact (After.refl p).congr rfl (by simp)
  | cons fq fqs ih =>
      have hfirst := fq.run_without_members pf p m h
      have hmembers : (fq.run pf (p, m)).1.jsonValue.members = [] := by rw [hfirst.jsonValue, h]
      have hrest := ih (fq.run pf (p, m)).1 (fq.run pf (p, m)).2 hmembers
      refine (hfirst.trans hrest).congr rfl ?_
      rw [List.forall_mem_cons]

end FieldRequest

/-- The response after requests of its handler, which leave the message alone. -/
def afterRequests (r : JsonResponse) (fqs : List (FieldRequest Ty)) (m : Memory Ty) :
    JsonResponse :=
  { r with parser := (FieldRequest.runAll pf fqs (r.parser, m)).1 }

variable (schema : pf.JSchema) (msg : ResponseMessage) (fqs : List (FieldRequest Ty))
  (m : Memory Ty)

/-- What is asked of the response after any requests of its handler. -/
structure ReportsSuccess : Prop where
  isSuccess : (handleLunaResponse pf schema msg).isSuccess = true ↔ Succeeded pf schema msg
  finishParse : ¬ Succeeded pf schema msg →
    (((handleLunaResponse pf schema msg).afterRequests pf fqs m).parser.finishParse false).2 = false
  finishParseOrThrow : ¬ Succeeded pf schema msg →
    (((handleLunaResponse pf schema msg).afterRequests pf fqs m).parser.finishParseOrThrow pf
      false).2 ≠ .ok ()
  hasErrors : ¬ Succeeded pf schema msg →
    ((handleLunaResponse pf schema msg).afterRequests pf fqs m).hasErrors = true

/-- The response reports what it should exactly when the call succeeded, or when it failed
without a payload and some request of the handler is mandatory. -/
theorem reportsSuccess_iff :
    ReportsSuccess pf schema msg fqs m ↔
      Succeeded pf schema msg ∨
        (msg.isHubError = true ∨ (pf.fromString msg.getPayload schema).isValid = false) ∧
          ∃ fq ∈ fqs, fq.optional = false := by
  have hsuccess := isSuccess_iff pf schema msg
  have hfailed : (handleLunaResponse pf schema msg).isSuccess = false ↔
      msg.isHubError = true ∨ (pf.fromString msg.getPayload schema).isValid = false := by
    rw [← Bool.not_eq_true, hsuccess]
    cases msg.isHubError <;> simp
  by_cases hok : Succeeded pf schema msg
  · refine iff_of_true ?_ (.inl hok)
    exact ⟨iff_of_true (isSuccess_of_succeeded pf schema msg hok) hok, fun h => absurd hok h,
      fun h => absurd hok h, fun h => absurd hok h⟩
  · rw [or_iff_right hok, ← hfailed]
    have hnull := handleLunaResponse_of_not_success pf schema msg
    have hafter := FieldRequest.runAll_without_members pf fqs (.ofJson (.valid .null)) m rfl
    have hfinish := hafter.finishParse false
    have hthrow := hafter.finishParseOrThrow pf false
    constructor
    · intro h
      have hnot : (handleLunaResponse pf schema msg).isSuccess = false := by
        rw [← Bool.not_eq_true, h.isSuccess]
        exact hok
      refine ⟨hnot, ?_⟩
      by_contra hnone
      have hall : ∀ fq ∈ fqs, fq.optional = true := by
        intro fq hq
        by_contra hmandatory
        exact hnone ⟨fq, hq, by simpa using hmandatory⟩
      have hfails := h.finishParse hok
      rw [hnull hnot, afterRequests, hfinish.mpr ⟨rfl, hall, by simp⟩] at hfails
      cases hfails
    · intro h
      rcases h with ⟨hnot, fq, hq, hmandatory⟩
      have hall : ¬ ∀ fq ∈ fqs, fq.optional = true := by
        intro hall
        rw [hall fq hq] at hmandatory
        cases hmandatory
      refine ⟨?_, ?_, ?_, ?_⟩
      · rw [hnot]
        exact iff_of_false Bool.false_ne_true hok
      · intro _
        rw [hnull hnot, ← Bool.not_eq_true, afterRequests, hfinish]
        exact fun h => hall h.2.1
      · intro _
        rw [hnull hnot, afterRequests, ne_eq, hthrow]
        exact fun h => hall h.2.1
      · intro _
        rw [hnull hnot]
        rfl

end

/-- An empty object counts as a success, and after a hub error a handler that asks for no
field gets `true` from `finishParse`. -/
theorem reportsSuccess_fails :
    ¬ ReportsSuccess .ofEmptyObject () ⟨false, "\x7b\x7d"⟩ []
      (fun _ : Unit => (0 : Nat)) ∧
    ¬ ReportsSuccess .ofEmptyObject () ⟨true, "\x7b\x7d"⟩ []
      (fun _ : Unit => (0 : Nat)) := by
  constructor
  · intro h
    rcases h.isSuccess.mp rfl with ⟨_, members, hpayload, hreturn⟩
    obtain rfl : [] = members := by simpa [Platform.ofEmptyObject] using hpayload
    simp at hreturn
  · intro h
    have hnot : ¬ Succeeded .ofEmptyObject () ⟨true, "\x7b\x7d"⟩ := by simp [Succeeded]
    have hfails := h.finishParse hnot
    cases hfails

end JsonResponse

end LSHelpers
