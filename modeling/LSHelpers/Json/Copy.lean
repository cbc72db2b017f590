import LSHelpers.Json.Reading

/-!
# Copies of a context

The copy constructor hands the pending check over: the copy takes every member but
`_valueNull`, which it does not initialise, and the original counts as read from then
on. A copy is made where a return by value is not elided, or where the result of a
modifier is stored by value.
-/

namespace LSHelpers

variable {T : Type}

namespace JsonParseContext

/-- The copy constructor: the copy, whose `_valueNull` is whatever was in its place, and the
original after it. -/
def copy (c : JsonParseContext T) (valueNull : Bool) : JsonParseContext T × JsonParseContext T :=
  ({ c with valueNull }, { c with valueRead := true })

/-- The original is destroyed and the expression goes on with the copy. Both refer to the
same parser and destination. -/
def recopied (c : JsonParseContext T) (valueNull : Bool) : JsonParseContext T :=
  let (copy, original) := c.copy valueNull
  let (parser, destination) := original.finishParse
  { copy with parser, destination }

/-- The original performs no check of its own. -/
theorem recopied_eq (c : JsonParseContext T) (valueNull : Bool) :
    c.recopied valueNull = { c with valueNull } := rfl

/-- No constraint looks at `_valueNull`. -/
theorem apply_valueNull (k : Constraint T) (c : JsonParseContext T) (flags : List Bool)
    (valueNull : Bool) :
    k.apply ({ c with valueNull }, flags) =
      ({ (k.apply (c, flags)).1 with valueNull }, (k.apply (c, flags)).2) := by
  rcases c with ⟨p, fieldName, d, valueRead, valueNull', isOptional, isAllowed⟩
  cases k with
  | optional | allowNull | checkValueRead => rfl
  | defaultValue | min | max =>
      simp only [Constraint.apply, defaultValue, JsonParseContext.min, JsonParseContext.max]
      split <;> rfl
  | allowedValues values =>
      simp only [Constraint.apply, allowedValues]
      split
      · split <;> rfl
      · rfl

/-- By induction on the chain after the copy. -/
theorem foldl_valueNull (chain : List (Constraint T)) (c : JsonParseContext T)
    (flags : List Bool) (valueNull : Bool) :
    chain.foldl (fun s k => k.apply s) ({ c with valueNull }, flags) =
      let s := chain.foldl (fun s k => k.apply s) (c, flags)
      ({ s.1 with valueNull }, s.2) := by
  induction chain generalizing c flags with
  | nil => rfl
  | cons k chain ih =>
      simp only [List.foldl_cons]
      rw [apply_valueNull]
      exact ih _ _

theorem recordError_of_hasError {p : JsonParser} (h : p.hasError = true)
    (fieldName message : String) : p.recordError fieldName message = p := by
  have hne : p.parseError ≠ "" := by simpa [JsonParser.hasError] using h
  rw [JsonParser.recordError, if_neg hne]

theorem recordError_parseError_ne {p : JsonParser} (h : p.hasError = false)
    (fieldName message : String) :
    (p.recordError fieldName message).parseError ≠ p.parseError := by
  intro heq
  have htrue := p.recordError_hasError fieldName message
  rw [JsonParser.hasError, heq, ← JsonParser.hasError, h] at htrue
  cases htrue

/-- The destructor looks at `_valueNull` in one branch, and there only the first error of
the parser is kept. -/
theorem finishParse_valueNull (c : JsonParseContext T) :
    (∀ valueNull, ({ c with valueNull }).finishParse.1.parseError =
        c.finishParse.1.parseError) ↔
      c.valueRead = true ∨ c.optionalFlag = false ∨ c.allowNullFlag = true ∨
        c.parser.hasError = true := by
  rcases c with ⟨p, fieldName, d, valueRead, valueNull, isOptional, isAllowed⟩
  cases valueRead with
  | true => simp [finishParse]
  | false =>
      cases isOptional with
      | false => simp [finishParse]
      | true =>
          cases isAllowed with
          | true => simp [finishParse]
          | false =>
              cases herror : p.hasError with
              | true => cases valueNull <;> simp [finishParse, recordError_of_hasError herror]
              | false =>
                  have hne := recordError_parseError_ne herror fieldName "null value is not allowed"
                  cases valueNull <;> simp [finishParse, hne, Ne.symm hne]

end JsonParseContext

/-! ## Requests with a copy -/

/-- The field leaves the destination unset without an error of its own: it is absent, or
what would be read is null. -/
def Getter.Unset (pf : Platform) (getter : Getter T) (field : Option Json) : Prop :=
  match getter, field with
  | _, none => True
  | .get _, some x => x = .null
  | .getFromString _, some (.string s) => (pf.fromString s pf.allSchema).isNull pf = true
  | _, some _ => False

section

variable (pf : Platform) (getter : Getter T)

theorem Reading.ofValue_unset (v : JValue) (d : T) (parserFunc : ParserFunc T) :
    (Reading.ofValue pf v d parserFunc).valueRead = false ∧
        (Reading.ofValue pf v d parserFunc).failed = false ↔
      v.isNull pf = true := by
  unfold Reading.ofValue
  cases v.isNull pf with
  | true => simp [Reading.null]
  | false =>
      rcases parserFunc v d with ⟨e | u, d'⟩
      · simp [Reading.failure]
      · simp [Reading.value]

theorem Getter.reading_unset (field : Option Json) (d : T) :
    (getter.reading pf field d).valueRead = false ∧ (getter.reading pf field d).failed = false ↔
      getter.Unset pf field := by
  cases field with
  | none => cases getter <;> simp [reading, Unset, Reading.absent]
  | some x =>
      cases getter with
      | get parserFunc =>
          simp only [reading, Unset, Reading.ofValue_unset, JValue.isNull_valid_iff]
      | getFromString parserFunc =>
          cases x with
          | string s => simp only [reading, Unset, Reading.ofValue_unset]
          | null | bool | number | array | object => simp [reading, Unset, Reading.failure]
      | getAndMap intermediateValue parserFunc find =>
          simp only [reading, Unset, Reading.mapped]
          split
          · split <;> simp [Reading.value, Reading.failure]
          · simp [Reading.failure]
      | getArray fresh parserFunc =>
          cases x with
          | array xs => simp [reading, Unset, Reading.elements]
          | null => simp [reading, Unset, Reading.failure]
          | bool | number | string | object => simp [reading, Unset]

variable (p : JsonParser) (name : String) (d : T) (before after : List (Constraint T))

/-- The context is copied between two parts of its chain, with any value in the member that
the copy does not initialise, and the request ends as it does without the copy. -/
def CopyTransparent : Prop :=
  ∀ valueNull,
    let c := getter.context pf p name d
    let r := ((c.chained before).1.recopied valueNull).finish after
    let r' := c.finish (before ++ after)
    r.parser.hasError = r'.parser.hasError ∧ r.parser.parseError = r'.parser.parseError ∧
      r.destination = r'.destination

/-- The rest of the chain on the copy, and the destructor. -/
theorem recopied_finish (c : JsonParseContext T) (valueNull : Bool) :
    let s := c.chained (before ++ after)
    let r := ((c.chained before).1.recopied valueNull).finish after
    r.parser = ({ s.1 with valueNull }).finishParse.1 ∧ r.destination = s.1.destination := by
  have hcopy : (((c.chained before).1.recopied valueNull).chained after).1 =
      { (c.chained (before ++ after)).1 with valueNull } := by
    rw [JsonParseContext.recopied_eq, JsonParseContext.chained,
      JsonParseContext.foldl_valueNull after (c.chained before).1 [] valueNull,
      JsonParseContext.chained_append]
    rfl
  have hdest := JsonParseContext.finishParse_after
    { (c.chained (before ++ after)).1 with valueNull }
  dsimp only [JsonParseContext.finish]
  rw [hcopy]
  exact ⟨rfl, hdest.2⟩

/-- Only the text of the error is at stake. -/
theorem copyTransparent_iff_parseError :
    CopyTransparent pf getter p name d before after ↔
      ∀ valueNull,
        ({ ((getter.context pf p name d).chained (before ++ after)).1 with
          valueNull }).finishParse.1.parseError =
        ((getter.context pf p name d).chained (before ++ after)).1.finishParse.1.parseError := by
  generalize hc : getter.context pf p name d = c
  have hdest := (JsonParseContext.finishParse_after (c.chained (before ++ after)).1).2
  constructor
  · intro h valueNull
    have hcopy := (recopied_finish before after c valueNull).1
    dsimp only at hcopy
    rw [← hcopy, ← hc]
    exact (h valueNull).2.1
  · intro h valueNull
    rcases recopied_finish before after c valueNull with ⟨hparser, hdest'⟩
    have htext : ((c.chained before).1.recopied valueNull |>.finish after).parser.parseError =
        (c.finish (before ++ after)).parser.parseError := by
      rw [hparser]
      exact h valueNull
    rw [hc]
    refine ⟨?_, htext, hdest'.trans hdest.symm⟩
    rw [JsonParser.hasError, htext]
    rfl

/-- A copy anywhere in the chain goes unnoticed exactly when an earlier error is kept, or the
field is read or refused before the chain, or the null it may have been is not looked at. -/
theorem copyTransparent_iff :
    CopyTransparent pf getter p name d before after ↔
      p.hasError = true ∨ ¬ getter.Unset pf (p.jsonValue.members.lookup name) ∨
        isOptional (before ++ after) = false ∨ allowsNull (before ++ after) = true := by
  have hreads := getter.context_reads pf p name d
  have hchain := (getter.context pf p name d).chained_spec (before ++ after)
  have herror := hreads.parser.trans hchain.parser
  rw [copyTransparent_iff_parseError, JsonParseContext.finishParse_valueNull, hchain.valueRead,
    hchain.optionalFlag, hchain.allowNullFlag, hreads.optionalFlag, hreads.allowNullFlag,
    hreads.valueRead, ← getter.reading_unset pf _ d]
  have hparser := herror.noError
  rw [hreads.valueRead] at hparser
  show _ ∨ isOptional (before ++ after) = false ∨ allowsNull (before ++ after) = true ∨ _ ↔ _
  cases hread : (getter.reading pf (p.jsonValue.members.lookup name) d).valueRead with
  | true => simp
  | false =>
      cases hfailed : (getter.reading pf (p.jsonValue.members.lookup name) d).failed with
      | true =>
          have htrue : ((getter.context pf p name d).chained
              (before ++ after)).1.parser.hasError = true := by
            rw [← Bool.not_eq_false, hparser, hfailed]
            simp
          simp [htrue]
      | false =>
          have hsame : ((getter.context pf p name d).chained
              (before ++ after)).1.parser.hasError = true ↔ p.hasError = true := by
            rw [← Bool.not_eq_false, hparser, hfailed, hread]
            simp
          rw [hsame]
          simp only [Bool.false_eq_true, false_or, and_self, not_true_eq_false]
          rw [← or_assoc, or_comm]

end

/-- A missing optional field, copied before `optional`: the copy may take it for null. -/
theorem get_copied :
    ¬ CopyTransparent .ofEmptyObject (.get fun _ d => (.ok (), d))
      (.ofJson (.valid (.object []))) "a" 0 [] [.optional true] := by
  intro h
  have herror := (h true).1
  exact absurd herror (by decide)

end LSHelpers
