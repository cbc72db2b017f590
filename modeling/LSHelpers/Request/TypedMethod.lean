import LSHelpers.Json.ErrorPath
import LSHelpers.Request.ErrorText

/-!
# Methods that read their request with a schema

The handlers of the documentation begin with requests for their fields and
`finishParseOrThrow`, and only then do their work. With such a handler a method is a
function of what was decoded: its body is run on conforming requests only, and any other
request is answered with the error of its first failure. On its way into the reply the text
of the failure is a format twice, of the exception and of the reply.
-/

namespace LSHelpers

/-- A handler whose body follows `finishParseOrThrow`. The request is the parser. -/
def typedHandler (pf : Platform) (schema : ObjectSchema) (destination : schema.fields.Dest)
    (body : schema.fields.Dest → Script) : Handler := fun params =>
  let r := schema.fields.request pf (.ofJson params) destination
  match (r.1.finishParseOrThrow pf schema.strict).2 with
  | .error e => ⟨[], .throws (.jsonParseError e)⟩
  | .ok () => body r.2

variable (pf : Platform) (schema : ObjectSchema) (destination : schema.fields.Dest)

/-- Without a failure every field conforms, and the destination is what the schema says. -/
theorem ObjectSchema.request_of_no_failure {value : JValue} (hvalue : value.isValid = true)
    (h : schema.failure value.members = none) :
    (schema.fields.request pf (.ofJson value) destination).2 =
      schema.fields.decoded value.members destination := by
  rw [failure, Option.or_eq_none_iff] at h
  rcases Fields.request_spec pf schema.fields schema.distinct.2 (.ofJson value) destination with
    ⟨hafter, hdest⟩
  have hlog := Fields.request_log pf schema.fields schema.distinct.2 (.ofJson value) destination
  rw [JsonParser.ofJson_jsonValue, h.1, Failure.render_none] at hlog
  have hstart : (JsonParser.ofJson value).hasError = false := by
    simp [JsonParser.ofJson, JsonParser.hasError, hvalue]
  have hclean : (schema.fields.request pf (.ofJson value) destination).1.hasError = false := by
    rw [hlog, JsonParser.log_hasError]
    exact ⟨hstart, rfl⟩
  rw [hafter.noError] at hclean
  exact hdest hclean.2

/-- The handler throws the first failure, and runs its body where there is none. -/
theorem typedHandler_eq (body : schema.fields.Dest → Script) {value : JValue}
    (hvalue : value.isValid = true) :
    typedHandler pf schema destination body value =
      match schema.failure value.members with
      | none => body (schema.fields.decoded value.members destination)
      | some failure => ⟨[], .throws (.jsonParseError (.ofFormat pf (failure.text pf)))⟩ := by
  have herror := schema.parsed_parseError pf hvalue destination
  unfold ObjectSchema.parsed at herror
  unfold typedHandler
  simp only [JsonParser.finishParseOrThrow, JsonParser.hasError, herror]
  cases hfailure : schema.failure value.members with
  | none =>
      have hdest := schema.request_of_no_failure pf destination hvalue hfailure
      simp [hdest]
  | some failure =>
      have htext : (failure.text pf != "") = true := bne_iff_ne.mpr (failure.text_ne_empty pf)
      simp [htext]

/-- What becomes of a call to such a method. -/
structure TypedCall (b : Bus) (payload : String) (jschema : pf.JSchema)
    (body : schema.fields.Dest → Script) (s : Exchange) : Prop where
  invalid : (pf.fromString payload jschema).isValid = false →
    s.replies = [⟨.errorReply, if (pf.fromString payload pf.allSchema).isValid then
        apiErrorSchemaValidation pf "Failed to validate luna request against schema"
      else apiErrorMalformedJson pf⟩] ∧
      s.phase = .finished (.ok true) ∧ s.handlerRuns = []
  refused : ∀ failure, (pf.fromString payload jschema).isValid = true →
    schema.failure (pf.fromString payload jschema).members = some failure →
      s.replies = [⟨.errorReply, errorResponse pf 3 (pf.format (failure.text pf))⟩] ∧
        s.phase = .finished (.ok true) ∧
        ∀ body', handleLunaCall pf b payload jschema
          (typedHandler pf schema destination body') = s
  refusedText : ∀ failure, (pf.fromString payload jschema).isValid = true →
    schema.failure (pf.fromString payload jschema).members = some failure →
      pf.Prints → PrintsAsIs (failure.text pf) →
        ∀ reply ∈ s.replies, reply.errorMessage = .valid (.string (failure.text pf))
  served : (pf.fromString payload jschema).isValid = true →
    schema.failure (pf.fromString payload jschema).members = none →
      s = handleLunaCall pf b payload jschema fun params =>
        body (schema.fields.decoded params.members destination)

/-- For every payload: the body is run exactly on the requests that conform, and on what was
decoded of them. The others are answered with the first failure, whatever the body is. -/
theorem handleLunaCall_typed (b : Bus) (hb : b.Reliable) (payload : String)
    (jschema : pf.JSchema) (body : schema.fields.Dest → Script) :
    TypedCall pf schema destination b payload jschema body
      (handleLunaCall pf b payload jschema (typedHandler pf schema destination body)) := by
  have hvalidated (hvalid : (pf.fromString payload jschema).isValid = true) :
      validate pf payload jschema = .ok (pf.fromString payload jschema) := by
    simp [validate, hvalid]
  have hrefused {failure : Failure} (hvalid : (pf.fromString payload jschema).isValid = true)
      (hfailure : schema.failure (pf.fromString payload jschema).members = some failure)
      (body : schema.fields.Dest → Script) :
      handleLunaCall pf b payload jschema (typedHandler pf schema destination body) =
        (Exchange.enterHandler (pf.fromString payload jschema)).unwind pf b
          (.jsonParseError (.ofFormat pf (failure.text pf))) := by
    unfold handleLunaCall
    simp only [hvalidated hvalid, typedHandler_eq pf schema destination body hvalid, hfailure,
      List.foldl_nil]
  have hreplies {failure : Failure} (hvalid : (pf.fromString payload jschema).isValid = true)
      (hfailure : schema.failure (pf.fromString payload jschema).members = some failure) :
      (handleLunaCall pf b payload jschema (typedHandler pf schema destination body)).replies =
        [⟨.errorReply, errorResponse pf 3 (pf.format (failure.text pf))⟩] := by
    rw [hrefused hvalid hfailure, Exchange.unwind_enterHandler pf hb]
    rfl
  refine ⟨?_, ?_, ?_, ?_⟩
  · intro hinvalid
    unfold handleLunaCall validate
    cases hjson : (pf.fromString payload pf.allSchema).isValid <;>
      simp [hinvalid, Exchange.catchClause_reliable pf hb, Exchange.arrived,
        Exchange.thrownReply]
  · intro failure hvalid hfailure
    refine ⟨hreplies hvalid hfailure, ?_, ?_⟩
    · rw [hrefused hvalid hfailure, Exchange.unwind_enterHandler pf hb]
      rfl
    · intro body'
      rw [hrefused hvalid hfailure, hrefused hvalid hfailure]
  · intro failure hvalid hfailure hpf hprints reply hreply
    rw [hreplies hvalid hfailure, hpf.format_eq hprints] at hreply
    rw [List.mem_singleton.mp hreply]
    simp [Reply.errorMessage, errorResponse, JValue.field, List.lookup_cons,
      hpf.format_eq hprints]
  · intro hvalid hfailure
    unfold handleLunaCall
    simp only [hvalidated hvalid, typedHandler_eq pf schema destination body hvalid, hfailure]

/-- An empty request, to a method that needs a flag. -/
theorem handleLunaCall_typed_missing :
    let schema : ObjectSchema :=
      ⟨.item "flag" (.leaf Bool false fun v => .ok v.isValid) false false .nil, false,
        by simp [Item.Distinct, Fields.Distinct, Fields.names]⟩
    TypedCall .ofEmptyObject schema (false, ()) .reliable "\x7b\x7d" ()
      (fun d => ⟨[], .returns (.valid (.bool d.1))⟩)
      (handleLunaCall .ofEmptyObject .reliable "\x7b\x7d" ()
        (typedHandler .ofEmptyObject schema (false, ())
          fun d => ⟨[], .returns (.valid (.bool d.1))⟩)) :=
  handleLunaCall_typed _ _ _ _ Bus.reliable_reliable _ _ _

end LSHelpers
