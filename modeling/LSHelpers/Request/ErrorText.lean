import LSHelpers.Request.HandleLunaCall
import LSHelpers.Text.Printf

/-!
# The way of an error text to the caller

A recorded text is the format of the exception that `finishParseOrThrow` throws, and the
text of that exception the format of the reply. It comes through as it is where printing
it is the identity.
-/

namespace LSHelpers

open Printf

/-- `abs(final_n) + 1`, an addition of `int`s. -/
def retrySize (returned : Int) : Option Nat :=
  if returned.natAbs < intMax then some (returned.natAbs + 1) else none

/-- `string_format_valist` with an empty argument list; `none` where its behaviour is
undefined. The size of the first buffer is a `size_t`. -/
def stringFormatValist (fmt : String) : Option String := do
  let n := fmt.utf8ByteSize * 2 % 18446744073709551616
  let first ← vsnprintf n fmt.toList
  if first.returned < 0 ∨ first.returned ≥ toInt n then
    let n ← retrySize first.returned
    let second ← vsnprintf n fmt.toList
    second.text.map String.ofList
  else first.text.map String.ofList

/-- The platform prints formats as the source's `string_format_valist` does. -/
def Platform.Prints (pf : Platform) : Prop :=
  ∀ fmt out, stringFormatValist fmt = some out → pf.format fmt = out

/-- Whatever the first size, the whole text is printed, if an `int` can say its size. -/
theorem stringFormatValist_eq (fmt : String) :
    stringFormatValist fmt = (expand (cString fmt.toList)).bind fun out =>
      if bytes out < intMax then some (String.ofList out) else none := by
  unfold stringFormatValist
  generalize fmt.utf8ByteSize * 2 % 18446744073709551616 = n
  cases hexpand : expand (cString fmt.toList) with
  | none => simp [vsnprintf, hexpand]
  | some out =>
      rw [Option.bind_some]
      by_cases hsize : bytes out ≤ intMax
      · have hprint : ∀ k, vsnprintf k fmt.toList =
            some ⟨bytes out, if bytes out < k then some out else none⟩ := by
          intro k
          simp [vsnprintf, hexpand, hsize]
        dsimp only
        rw [hprint, Option.bind_eq_bind, Option.bind_some]
        dsimp only
        by_cases hretry : (bytes out : Int) < 0 ∨ (bytes out : Int) ≥ toInt n
        · rw [if_pos hretry]
          by_cases hlt : bytes out < intMax
          · simp [retrySize, hlt, hprint]
          · simp [retrySize, hlt]
        · rcases lt_of_lt_toInt (Int.not_le.mp (not_or.mp hretry).2) with ⟨hfits, hlt⟩
          rw [if_neg hretry]
          simp [hfits, hlt]
      · have hprint : ∀ k, vsnprintf k fmt.toList = some ⟨-1, none⟩ := by
          intro k
          simp [vsnprintf, hexpand, hsize]
        have hlt : ¬ bytes out < intMax := by omega
        simp [hprint, hlt, retrySize]

/-- A text that is printed as it is: without `%`, without an end of string, and of a size
an `int` can say with the byte that ends it. -/
def PrintsAsIs (text : String) : Prop :=
  '%' ∉ text.toList ∧ '\x00' ∉ text.toList ∧ text.utf8ByteSize < intMax

theorem stringFormatValist_eq_self_iff (text : String) :
    stringFormatValist text = some text ↔ PrintsAsIs text := by
  rw [stringFormatValist_eq, Option.bind_eq_some_iff]
  constructor
  · intro h
    rcases h with ⟨out, hexpand, hout⟩
    split at hout
    · rename_i hsize
      have hself : out = text.toList := by rw [← Option.some.inj hout, String.toList_ofList]
      subst hself
      rcases (expand_cString_eq_self_iff _).mp hexpand with ⟨hpercent, hnul⟩
      refine ⟨hpercent, hnul, ?_⟩
      simpa [bytes] using hsize
    · cases hout
  · intro h
    have hsize : bytes text.toList < intMax := by simpa [bytes] using h.2.2
    refine ⟨text.toList, (expand_cString_eq_self_iff _).mpr ⟨h.1, h.2.1⟩, ?_⟩
    rw [if_pos hsize, String.ofList_toList]

theorem Platform.Prints.format_eq {pf : Platform} (h : pf.Prints) {text : String}
    (htext : PrintsAsIs text) : pf.format text = text :=
  h _ _ ((stringFormatValist_eq_self_iff text).mpr htext)

/-! ## The reply of a handler that throws -/

namespace Exchange

variable (pf : Platform) (b : Bus)

/-- No reply of the catch clauses is among those sent. -/
def NoErrorReply (s : Exchange) : Prop := ∀ reply ∈ s.replies, reply.sender ≠ .errorReply

theorem NoErrorReply.respond {s : Exchange} (h : s.NoErrorReply) {sender : Sender}
    (hsender : sender ≠ .errorReply) (response : JValue) :
    (s.respond b sender response).2.NoErrorReply := by
  unfold Exchange.respond send
  cases responseObject response with
  | none => exact h
  | some payload =>
      cases b.respond s.attempts with
      | some e => exact h
      | none =>
          intro reply hreply
          cases List.mem_append.mp hreply with
          | inl hold => exact h reply hold
          | inr hnew =>
              rw [List.mem_singleton.mp hnew]
              exact hsender

theorem destroyRequest_replies (s : Exchange) :
    (s.destroyRequest pf b).replies = s.replies ∨
      (s.destroyRequest pf b).replies =
        (s.respond b .destructor (.valid (apiErrorNoResponse pf))).2.replies := by
  unfold destroyRequest
  cases hrequest : s.request with
  | none => exact .inl rfl
  | some r =>
      cases hresponded : r.mResponded with
      | true => exact .inl (by simp [hresponded])
      | false =>
          right
          simp only [hresponded, Bool.not_false, if_true]
          rcases s.respond b .destructor (.valid (apiErrorNoResponse pf)) with ⟨result, t⟩
          cases result <;> rfl

theorem NoErrorReply.release {s : Exchange} (h : s.NoErrorReply) :
    (s.release pf b).NoErrorReply := by
  have hstock : Sender.destructor ≠ .errorReply := by decide
  have hrespond := h.respond b hstock (.valid (apiErrorNoResponse pf))
  unfold Exchange.release
  split
  · unfold NoErrorReply
    cases destroyRequest_replies pf b s with
    | inl hsame =>
        rw [hsame]
        exact h
    | inr hstock =>
        rw [hstock]
        exact hrespond
  · exact h

theorem NoErrorReply.perform {s : Exchange} (h : s.NoErrorReply) (a : Action) :
    (perform pf b s a).NoErrorReply := by
  unfold Exchange.perform
  split
  · cases a with
    | defer | copy => exact h
    | invoke response =>
        have hdeferred : Sender.deferredFunction ≠ .errorReply := by decide
        exact h.respond b hdeferred response
    | drop => exact NoErrorReply.release pf b h
  · exact h

theorem NoErrorReply.foldl {s : Exchange} (h : s.NoErrorReply) (actions : List Action) :
    (actions.foldl (Exchange.perform pf b) s).NoErrorReply := by
  induction actions generalizing s with
  | nil => exact h
  | cons a actions ih => exact ih (h.perform pf b a)

/-- The one reply a thrown `JsonParseError` may lead to. -/
theorem errorReply_unwind {s : Exchange} (h : s.NoErrorReply) (e : JsonParseError) {reply : Reply}
    (hreply : reply ∈ (s.unwind pf b (.jsonParseError e)).replies)
    (hsender : reply.sender = .errorReply) :
    reply.payload = apiErrorSchemaValidation pf e.message := by
  have hbefore : (s.leaveScope pf b).NoErrorReply := NoErrorReply.release pf b h
  unfold unwind catchClause catchClause.reply send at hreply
  dsimp only at hreply
  cases hrespond : b.respond (s.leaveScope pf b).attempts with
  | some _ =>
      rw [hrespond] at hreply
      exact absurd hsender (hbefore reply hreply)
  | none =>
      rw [hrespond] at hreply
      cases List.mem_append.mp hreply with
      | inl hold => exact absurd hsender (hbefore reply hold)
      | inr hnew => rw [List.mem_singleton.mp hnew]

/-- On a reliable bus it does lead to one. -/
theorem errorReply_mem_unwind {b : Bus} (hb : b.Reliable) (s : Exchange) (e : JsonParseError) :
    ⟨.errorReply, apiErrorSchemaValidation pf e.message⟩ ∈
      (s.unwind pf b (.jsonParseError e)).replies := by
  unfold unwind
  rw [catchClause_reliable pf hb]
  simp [thrownReply]

end Exchange

/-! ## From the record to the caller -/

/-- The text of a reply's error message. -/
def Reply.errorMessage (reply : Reply) : JValue := (JValue.valid reply.payload).field "errorMessage"

/-- What is asked of the exception thrown for the recorded text. -/
structure Survives (pf : Platform) (text : String) (e : JsonParseError) : Prop where
  what : e.message = text
  reply : ∀ b payload schema value handler, validate pf payload schema = .ok value →
    (handler value).outcome = .throws (.jsonParseError e) →
    ∀ reply ∈ (handleLunaCall pf b payload schema handler).replies,
      reply.sender = .errorReply → reply.errorMessage = .valid (.string text)
  replied : ∀ b payload schema value handler, b.Reliable →
    validate pf payload schema = .ok value →
    (handler value).outcome = .throws (.jsonParseError e) →
    ∃ reply ∈ (handleLunaCall pf b payload schema handler).replies, reply.sender = .errorReply

theorem handleLunaCall_of_throws {pf : Platform} {b : Bus} {payload : String}
    {schema : pf.JSchema} {value : JValue} {handler : Handler} {e : Exn}
    (hvalid : validate pf payload schema = .ok value)
    (hthrows : (handler value).outcome = .throws e) :
    handleLunaCall pf b payload schema handler =
      ((handler value).actions.foldl (Exchange.perform pf b) (.enterHandler value)).unwind pf b
        e := by
  unfold handleLunaCall
  rw [hvalid]
  dsimp only
  rw [hthrows]

theorem survives_of_format {pf : Platform} {text : String} (h : pf.format text = text) :
    Survives pf text (.ofFormat pf text) where
  what := h
  reply b payload schema value handler hvalid hthrows reply hreply hsender := by
    have hstart : (Exchange.enterHandler value).NoErrorReply := by
      intro reply hreply
      cases hreply
    rw [handleLunaCall_of_throws hvalid hthrows] at hreply
    have hpayload := Exchange.errorReply_unwind pf b (hstart.foldl pf b _) _ hreply hsender
    rw [Reply.errorMessage, hpayload, JsonParseError.ofFormat, h]
    simp [apiErrorSchemaValidation, errorResponse, JValue.field, List.lookup_cons, h]
  replied b payload schema value handler hb hvalid hthrows := by
    rw [handleLunaCall_of_throws hvalid hthrows]
    exact ⟨_, Exchange.errorReply_mem_unwind pf hb _ _, rfl⟩

/-- A platform that prints as the source does, and the empty text where that is undefined. -/
def Platform.printing : Platform where
  JSchema := Unit
  allSchema := ()
  fromString _ _ := .invalid
  serialize _ := ""
  isNullOfInvalid := true
  format fmt := (stringFormatValist fmt).getD ""

theorem Platform.printing_prints : Platform.printing.Prints := by
  intro fmt out h
  simp [Platform.printing, h]

/-- What `finishParseOrThrow` throws, if it throws. -/
theorem JsonParser.finishParseOrThrow_error (pf : Platform) {p : JsonParser} {strict : Bool}
    {e : JsonParseError} :
    (p.finishParseOrThrow pf strict).2 = .error e ↔
      (p.finishParse strict).1.hasError = true ∧
        e = .ofFormat pf (p.finishParse strict).1.parseError := by
  unfold JsonParser.finishParseOrThrow
  dsimp only
  split
  · rename_i herror
    simp [herror, eq_comm]
  · rename_i herror
    simp [herror]

theorem printsAsIs_empty : PrintsAsIs "" := by
  simp [PrintsAsIs, intMax]

theorem printsAsIs_strict :
    PrintsAsIs "Failed to validate against schema: Field '' unexpected fields in strict mode" := by
  refine ⟨by simp, by simp, ?_⟩
  unfold intMax
  decide

/-- The text the strict check may add prints as it is, so only what was recorded before counts. -/
theorem finishParse_printsAsIs_iff (p : JsonParser) (strict : Bool) :
    PrintsAsIs (p.finishParse strict).1.parseError ↔ PrintsAsIs p.parseError := by
  have htext : JsonParser.errorText "" "unexpected fields in strict mode" =
      "Failed to validate against schema: Field '' unexpected fields in strict mode" := by decide
  unfold JsonParser.finishParse JsonParser.recordError
  dsimp only
  split
  · split
    · rename_i hempty
      rw [hempty, htext]
      exact iff_of_true printsAsIs_strict printsAsIs_empty
    · exact Iff.rfl
  · exact Iff.rfl

/-- Whatever platform the code runs on, the text of the error that `finishParseOrThrow`
throws comes through, if and only if the text recorded before prints as it is. -/
theorem survives_iff (p : JsonParser) (strict : Bool) :
    (∀ pf : Platform, pf.Prints → ∀ e, (p.finishParseOrThrow pf strict).2 = .error e →
      Survives pf (p.finishParse strict).1.parseError e) ↔ PrintsAsIs p.parseError := by
  rw [← finishParse_printsAsIs_iff p strict]
  constructor
  · intro h
    cases herror : (p.finishParse strict).1.hasError with
    | false =>
        have hempty : (p.finishParse strict).1.parseError = "" := by
          simpa [JsonParser.hasError] using herror
        rw [hempty]
        exact printsAsIs_empty
    | true =>
        have hthrow := (JsonParser.finishParseOrThrow_error .printing).mpr ⟨herror, rfl⟩
        have hwhat := (h .printing Platform.printing_prints _ hthrow).what
        rw [← stringFormatValist_eq_self_iff]
        have hne : (p.finishParse strict).1.parseError ≠ "" := by
          simpa [JsonParser.hasError] using herror
        simp only [JsonParseError.ofFormat, Platform.printing] at hwhat
        cases hformat : stringFormatValist (p.finishParse strict).1.parseError with
        | none =>
            rw [hformat] at hwhat
            exact absurd hwhat.symm hne
        | some out =>
            rw [hformat] at hwhat
            exact congrArg some hwhat
  · intro h pf hpf e hthrow
    rcases (JsonParser.finishParseOrThrow_error pf).mp hthrow with ⟨_, rfl⟩
    exact survives_of_format (hpf.format_eq h)

/-- The parser of an empty object that was asked for a volume. -/
def volumeParser : JsonParser :=
  (JsonParser.ofJson (.valid (.object []))).recordError "volume" "over 100%%"

theorem format_volume :
    stringFormatValist "Failed to validate against schema: Field 'volume' over 100%%" =
      some "Failed to validate against schema: Field 'volume' over 100%" := by
  have hexpand : expand
      (cString "Failed to validate against schema: Field 'volume' over 100%%".toList) =
      some "Failed to validate against schema: Field 'volume' over 100%".toList := by
    simp [cString, expand]
  have hsize : bytes "Failed to validate against schema: Field 'volume' over 100%".toList <
      intMax := by
    rw [bytes, String.ofList_toList]
    decide
  rw [stringFormatValist_eq, hexpand, Option.bind_some, if_pos hsize, String.ofList_toList]

/-- The recorded text ends in `100%%`, and the text that is thrown in `100%`. -/
theorem percent_lost :
    Platform.printing.Prints ∧
    (volumeParser.finishParse false).1.parseError =
      "Failed to validate against schema: Field 'volume' over 100%%" ∧
    (volumeParser.finishParseOrThrow .printing false).2 =
      .error ⟨"Failed to validate against schema: Field 'volume' over 100%"⟩ ∧
    ¬ Survives .printing "Failed to validate against schema: Field 'volume' over 100%%"
      ⟨"Failed to validate against schema: Field 'volume' over 100%"⟩ := by
  have htext : (volumeParser.finishParse false).1.parseError =
      "Failed to validate against schema: Field 'volume' over 100%%" := by decide
  refine ⟨Platform.printing_prints, htext, ?_, ?_⟩
  · rw [JsonParser.finishParseOrThrow_error, htext]
    refine ⟨by decide, ?_⟩
    simp only [JsonParseError.ofFormat, Platform.printing, format_volume, Option.getD_some]
  · intro h
    exact absurd h.what (by decide)

end LSHelpers
