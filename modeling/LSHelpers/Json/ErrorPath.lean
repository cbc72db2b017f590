import LSHelpers.Json.Conformance
import LSHelpers.Json.Getters

/-!
# The error of a decode

A parser keeps the first error it records, and a data object throws the error of its own
parser to the one around it. So the text a decode ends with says where in the value the
first failure is: the names of the fields on the way down, and what is wrong there. Which
failure is the first is said here of the schema and the value alone.
-/

namespace LSHelpers

/-- What is wrong with a field. -/
inductive Refusal
  | missing
  | null
  | notAnArray
  | notAnObject
  | unexpectedFields
  | undecoded (message : String)
deriving Repr, DecidableEq

/-- A field that is refused, or one with an object in which there is a failure. -/
inductive Failure
  | field (name : String) (refusal : Refusal)
  | inside (name : String) (failure : Failure)
deriving Repr, DecidableEq

def Refusal.text (pf : Platform) : Refusal → String
  | .missing => "mandatory but not present"
  | .null => "null value is not allowed"
  | .notAnArray => "array expected but did not get one."
  | .notAnObject => pf.format "not an object"
  | .unexpectedFields => "unexpected fields in strict mode"
  | .undecoded message => message

/-- The error of an inner object is thrown as a format. -/
def Failure.text (pf : Platform) : Failure → String
  | .field name refusal => JsonParser.errorText name (refusal.text pf)
  | .inside name failure => JsonParser.errorText name (pf.format (failure.text pf))

/-- The failure of a strict object with keys that are not asked for; it has no name. -/
def unexpected (names : List String) (strict : Bool) (ms : List (String × Json)) :
    Option Failure :=
  if strict && !(ms.map Prod.fst).all fun key => key ∈ names then
    some (.field "" .unexpectedFields)
  else none

/-- The first failure of a field read by `get`, given that of a value that is not null. -/
def fieldFailure (name : String) (optional allowNull : Bool) (failure : Json → Option Failure) :
    Option Json → Option Failure
  | none => if optional then none else some (.field name .missing)
  | some .null =>
      if !optional then some (.field name .missing)
      else if !allowNull then some (.field name .null)
      else none
  | some x => failure x

/-- The first failure among the elements of an array; they are not numbered. -/
def elementsFailure (name : String) (failure : Json → Option Failure) :
    List Json → Option Failure
  | [] => none
  | .null :: _ => some (.field name .missing)
  | x :: rest => (failure x).or (elementsFailure name failure rest)

def arrayFailure (name : String) (optional : Bool) (failure : Json → Option Failure) :
    Option Json → Option Failure
  | none => if optional then none else some (.field name .missing)
  | some .null => some (.field name .null)
  | some (.array xs) => elementsFailure name failure xs
  | some _ => some (.field name .notAnArray)

mutual

/-- The first failure of a value that is not null, read under a name. -/
def Item.failure : Item → String → Json → Option Failure
  | .leaf _ _ parse => fun name x =>
      match parse (.valid x) with
      | .ok _ => none
      | .error e => some (.field name (.undecoded e.message))
  | .object fields strict => fun name x =>
      match x with
      | .object ms =>
          ((fields.failure ms).or (unexpected fields.names strict ms)).map (.inside name)
      | _ => some (.field name .notAnObject)

/-- The first failure among the fields, in the order they are asked for. -/
def Fields.failure : Fields → List (String × Json) → Option Failure
  | .nil => fun _ => none
  | .item name schema optional allowNull rest => fun ms =>
      (fieldFailure name optional allowNull (schema.failure name) (ms.lookup name)).or
        (rest.failure ms)
  | .array name element optional rest => fun ms =>
      (arrayFailure name optional (element.failure name) (ms.lookup name)).or (rest.failure ms)

end

def ObjectSchema.failure (schema : ObjectSchema) (ms : List (String × Json)) : Option Failure :=
  (schema.fields.failure ms).or (unexpected schema.fields.names schema.strict ms)

/-- The text a parser is left with; the empty text is no error. -/
def Failure.render (pf : Platform) (failure : Option Failure) : String :=
  (failure.map (Failure.text pf)).getD ""

namespace Failure

variable (pf : Platform)

theorem text_ne_empty (failure : Failure) : failure.text pf ≠ "" := by
  cases failure <;> exact JsonParser.errorText_ne_empty _ _

@[simp] theorem render_none : render pf none = "" := rfl

@[simp] theorem render_some (failure : Failure) : render pf (some failure) = failure.text pf := rfl

theorem render_eq_empty_iff (failure : Option Failure) :
    render pf failure = "" ↔ failure = none := by
  cases failure with
  | none => simp
  | some failure => simp [failure.text_ne_empty pf]

/-- The first of two failures is the first of two errors. -/
theorem render_or (failure failure' : Option Failure) :
    render pf (failure.or failure') =
      JsonParser.firstError (render pf failure) (render pf failure') := by
  cases failure with
  | none => rfl
  | some failure => simp [JsonParser.firstError, failure.text_ne_empty pf]

end Failure

namespace JsonParser

variable {T : Type} (pf : Platform) (name : String)

/-! ## The error of one request -/

/-- The error a parse function is recorded with. -/
def thrownText (name : String) : Except JsonParseError Unit → String
  | .ok () => ""
  | .error e => errorText name e.message

theorem firstError_errorText (message error : String) :
    firstError (errorText name message) error = errorText name message :=
  if_neg (errorText_ne_empty name message)

/-- The check of a context whose field was found and is not null: what the parse function
threw is recorded first. -/
theorem getImpl_log (p : JsonParser) {x : Json} (hx : x ≠ .null) (destination : T)
    (parserFunc : ParserFunc T) (optional allowNull : Bool) :
    (((getImpl pf p name (.valid x) true destination parserFunc).optional optional).allowNull
      allowNull).finishParse.1 =
        p.log (thrownText name (parserFunc (.valid x) destination).1) 0 := by
  have hnull := JValue.isNull_valid_of_ne pf hx
  rcases hparse : parserFunc (.valid x) destination with ⟨e | u, d⟩
  · cases optional <;>
      simp [getImpl, hnull, hparse, JsonParseContext.optional, JsonParseContext.allowNull,
        JsonParseContext.finishParse, thrownText, recordError_eq_log, log_log,
        firstError_errorText]
  · simp [getImpl, hnull, hparse, JsonParseContext.optional, JsonParseContext.allowNull,
      JsonParseContext.finishParse, thrownText, log_empty]

/-- The error of a request by `get`. -/
def getError (name : String) (optional allowNull : Bool) (thrown : Json → String) :
    Option Json → String
  | none => if optional then "" else errorText name "mandatory but not present"
  | some .null =>
      if !optional then errorText name "mandatory but not present"
      else if !allowNull then errorText name "null value is not allowed"
      else ""
  | some x => thrown x

theorem get_log (p : JsonParser) (destination : T) (parserFunc : ParserFunc T)
    (optional allowNull : Bool) :
    (((p.get pf name destination parserFunc).optional optional).allowNull allowNull).finishParse.1 =
      p.log (getError name optional allowNull
          (fun x => thrownText name (parserFunc (.valid x) destination).1)
          (p.jsonValue.members.lookup name))
        (if (p.jsonValue.members.lookup name).isSome then 1 else 0) := by
  cases h : p.jsonValue.members.lookup name with
  | none =>
      rw [get_absent pf p name destination parserFunc optional allowNull h]
      cases optional <;> simp [getError, log_empty, recordError_eq_log]
  | some x =>
      by_cases hx : x = .null
      · subst hx
        rw [get_null pf p name destination parserFunc optional allowNull h]
        cases optional <;> cases allowNull <;>
          simp [getError, recordError_eq_log, countField_eq_log, log_log]
      · have hget : p.get pf name destination parserFunc =
            p.countField.getImpl pf name (.valid x) true destination parserFunc := by
          simp [get, JValue.hasKey, JValue.field, h]
        rw [hget, getImpl_log pf name p.countField hx, countField_eq_log, log_log]
        cases x <;> simp_all [getError]

/-! ## The error of an array -/

/-- The error of the first element that is null or does not decode. -/
def itemsError (name : String) (thrown : Json → String) : List Json → String
  | [] => ""
  | .null :: _ => errorText name "mandatory but not present"
  | x :: rest => firstError (thrown x) (itemsError name thrown rest)

theorem getItems_log (fresh : T) (parserFunc : ParserFunc T) (items : List Json) (p : JsonParser)
    (done : List T) :
    (getItems pf name fresh parserFunc items (p, done)).1 =
      p.log (itemsError name (fun x => thrownText name (parserFunc (.valid x) fresh).1) items)
        0 := by
  induction items generalizing p done with
  | nil => exact (log_empty p).symm
  | cons x items ih =>
      by_cases hx : x = .null
      · subst hx
        simp only [getItems, ih]
        simp [getImpl, JsonParseContext.finishParse, recordError_eq_log, log_log, itemsError,
          firstError_errorText]
      · have hitem := getImpl_log pf name p hx fresh parserFunc false false
        rw [getImpl_flags] at hitem
        simp only [getItems, ih, hitem, log_log, Nat.add_zero]
        cases x <;> simp_all [itemsError]

/-- The error of a request by `getArray`. -/
def getArrayError (name : String) (optional : Bool) (thrown : Json → String) :
    Option Json → String
  | none => if optional then "" else errorText name "mandatory but not present"
  | some .null => errorText name "null value is not allowed"
  | some (.array xs) => itemsError name thrown xs
  | some _ => errorText name "array expected but did not get one."

theorem getArray_log (p : JsonParser) (destination : List T) (fresh : T)
    (parserFunc : ParserFunc T) (optional : Bool) :
    ((p.getArray pf name destination fresh parserFunc).optional optional).finishParse.1 =
      p.log (getArrayError name optional
          (fun x => thrownText name (parserFunc (.valid x) fresh).1)
          (p.jsonValue.members.lookup name))
        (if (p.jsonValue.members.lookup name).isSome then 1 else 0) := by
  cases h : p.jsonValue.members.lookup name with
  | none =>
      cases optional <;>
        simp [getArray, get, getImpl, JValue.hasKey, h, JsonParseContext.optional,
          JsonParseContext.checkValueRead, JsonParseContext.finishParse, getArrayError, log_empty,
          recordError_eq_log]
  | some x =>
      cases x with
      | null =>
          cases optional <;>
            simp [getArray, get, getImpl, JValue.hasKey, JValue.field, h,
              JsonParseContext.optional, JsonParseContext.checkValueRead,
              JsonParseContext.finishParse, getArrayError, recordError_eq_log, countField_eq_log,
              log_log, firstError_errorText]
      | array xs =>
          have hitems := getItems_log pf name fresh parserFunc xs p.countField []
          simpa [getArray, get, getImpl, JValue.hasKey, JValue.field, h, JValue.isNull,
            JValue.items, parseValueJValue, JsonParseContext.optional,
            JsonParseContext.checkValueRead, JsonParseContext.finishParse, getArrayError,
            countField_eq_log, log_log] using hitems
      | bool _ | number _ | string _ | object _ =>
          simp [getArray, get, getImpl, JValue.hasKey, JValue.field, h, JValue.isNull,
            JValue.items, parseValueJValue, JsonParseContext.optional,
            JsonParseContext.checkValueRead, JsonParseContext.finishParse, getArrayError,
            recordError_eq_log, countField_eq_log, log_log]

/-- The final check adds its own error where the parser has none. -/
theorem finishParse_log (p : JsonParser) (strict : Bool) :
    (p.finishParse strict).1 =
      p.log (if strict && p.numberOfFields != p.jsonValue.objectSize then
        errorText "" "unexpected fields in strict mode" else "") 0 := by
  unfold finishParse
  split <;> simp [recordError_eq_log, log_empty]

end JsonParser

/-! ## The errors and the failures -/

section Render

variable (pf : Platform) (name : String) {thrown : Json → String}
  {failure : Json → Option Failure}
  (h : ∀ x, x ≠ .null → thrown x = Failure.render pf (failure x))
include h

theorem getError_eq (optional allowNull : Bool) (field : Option Json) :
    JsonParser.getError name optional allowNull thrown field =
      Failure.render pf (fieldFailure name optional allowNull failure field) := by
  cases field with
  | none => cases optional <;> rfl
  | some x =>
      cases x with
      | null => cases optional <;> cases allowNull <;> rfl
      | bool _ | number _ | string _ | array _ | object _ => exact h _ (by simp)

theorem itemsError_eq (xs : List Json) :
    JsonParser.itemsError name thrown xs =
      Failure.render pf (elementsFailure name failure xs) := by
  induction xs with
  | nil => rfl
  | cons x xs ih =>
      cases x with
      | null => rfl
      | bool _ | number _ | string _ | array _ | object _ =>
          simp only [JsonParser.itemsError, elementsFailure, Failure.render_or, ← ih]
          rw [h _ (by simp)]

theorem getArrayError_eq (optional : Bool) (field : Option Json) :
    JsonParser.getArrayError name optional thrown field =
      Failure.render pf (arrayFailure name optional failure field) := by
  cases field with
  | none => cases optional <;> rfl
  | some x =>
      cases x with
      | array xs => exact itemsError_eq pf name h xs
      | null | bool _ | number _ | string _ | object _ => rfl

end Render

/-- The strict check, said of the keys. -/
theorem strictError_eq (pf : Platform) {names : List String} (hnames : names.Nodup)
    (strict : Bool) (v : JValue) :
    (if strict && names.countP (fun name => (v.members.lookup name).isSome) != v.objectSize then
      JsonParser.errorText "" "unexpected fields in strict mode" else "") =
      Failure.render pf (unexpected names strict v.members) := by
  have hcount : names.countP (fun name => (v.members.lookup name).isSome) = v.objectSize ↔
      ∀ key ∈ v.members.map Prod.fst, key ∈ names :=
    countP_eq_objectSize_iff names hnames v.members
  have hall : ((v.members.map Prod.fst).all fun key => decide (key ∈ names)) = true ↔
      ∀ key ∈ v.members.map Prod.fst, key ∈ names := by simp
  unfold unexpected
  cases strict with
  | false => rfl
  | true =>
      by_cases hnamed : ∀ key ∈ v.members.map Prod.fst, key ∈ names
      · simp [hcount.mpr hnamed, hall.mpr hnamed]
      · have hsize := mt hcount.mp hnamed
        have hkeys := mt hall.mp hnamed
        rw [Bool.not_eq_true] at hkeys
        rw [hkeys]
        simp [hsize, Failure.text, Refusal.text]

/-- The error after the final check of the requests of a data object on a value. -/
theorem finishParse_render (pf : Platform) {names : List String} (hnames : names.Nodup)
    (strict : Bool) {v : JValue} (hv : v.isValid = true) {failure : Option Failure}
    {q : JsonParser}
    (hq : q = (JsonParser.ofJson v).log (Failure.render pf failure)
      (names.countP fun name => (v.members.lookup name).isSome)) :
    (q.finishParse strict).1.parseError =
      Failure.render pf (failure.or (unexpected names strict v.members)) := by
  have hstart : (JsonParser.ofJson v).parseError = "" := if_pos hv
  have hstrict := strictError_eq pf hnames strict v
  rw [JsonParser.finishParse_log, hq, Failure.render_or, ← hstrict]
  simp [JsonParser.log, hstart]

mutual

theorem Item.thrownText_eq (pf : Platform) (s : Item) (hs : s.Distinct) (name : String) (x : Json)
    (d : s.Dest) :
    JsonParser.thrownText name (s.parserFunc pf (.valid x) d).1 =
      Failure.render pf (s.failure name x) := by
  cases s with
  | leaf T fresh parse =>
      simp only [Item.parserFunc, Item.failure]
      cases parse (.valid x) <;> rfl
  | object fields strict =>
      cases x with
      | object ms =>
          have hrequest := Fields.request_log pf fields hs.2 (.ofJson (.valid (.object ms))) d
          have herror := finishParse_render pf hs.1 strict (v := .valid (.object ms)) rfl hrequest
          rw [JsonParser.ofJson_jsonValue, JValue.members_object] at herror
          simp only [Item.parserFunc, Item.failure, JsonParser.parseValueJsonDataObject,
            JValue.isObject, Bool.not_true, Bool.false_eq_true, if_false,
            JsonParser.finishParseOrThrow, JsonParser.hasError, herror]
          cases hfailure : (fields.failure ms).or (unexpected fields.names strict ms) with
          | none => rfl
          | some failure =>
              have htext : (failure.text pf != "") = true :=
                bne_iff_ne.mpr (failure.text_ne_empty pf)
              simp [htext, JsonParser.thrownText, JsonParseError.ofFormat, Failure.text]
      | null | bool _ | number _ | string _ | array _ =>
          simp [Item.parserFunc, Item.failure, JsonParser.parseValueJsonDataObject,
            JValue.isObject, JsonParser.thrownText, JsonParseError.ofFormat, Failure.text,
            Refusal.text]

theorem Fields.request_log (pf : Platform) (fs : Fields) (hfs : fs.Distinct) (p : JsonParser)
    (d : fs.Dest) :
    (fs.request pf p d).1 = p.log (Failure.render pf (fs.failure p.jsonValue.members))
      (fs.names.countP fun name => (p.jsonValue.members.lookup name).isSome) := by
  cases fs with
  | nil => exact (JsonParser.log_empty p).symm
  | item name schema optional allowNull rest =>
      rcases d with ⟨d, ds⟩
      have hitem := fun x (_ : x ≠ Json.null) => Item.thrownText_eq pf schema hfs.1 name x d
      have hfield :=
        JsonParser.get_log pf name p d (schema.parserFunc pf) optional allowNull
      rw [getError_eq pf name hitem] at hfield
      have hrest := Fields.request_log pf rest hfs.2
        (((p.get pf name d (schema.parserFunc pf)).optional optional).allowNull
          allowNull).finishParse.1 ds
      simp only [Fields.request, Fields.failure, Fields.names, Failure.render_or, List.countP_cons]
      rw [hrest, hfield, JsonParser.log_jsonValue, JsonParser.log_log, Nat.add_comm]
  | array name element optional rest =>
      rcases d with ⟨d, ds⟩
      have hitem := fun x (_ : x ≠ Json.null) =>
        Item.thrownText_eq pf element hfs.1 name x element.fresh
      have hfield := JsonParser.getArray_log pf name p d element.fresh (element.parserFunc pf)
        optional
      rw [getArrayError_eq pf name hitem] at hfield
      have hrest := Fields.request_log pf rest hfs.2
        ((p.getArray pf name d element.fresh (element.parserFunc pf)).optional
          optional).finishParse.1 ds
      simp only [Fields.request, Fields.failure, Fields.names, Failure.render_or, List.countP_cons]
      rw [hrest, hfield, JsonParser.log_jsonValue, JsonParser.log_log, Nat.add_comm]

end

/-! ## The error of a decode -/

/-- The parser of a decode, after its final check. -/
def ObjectSchema.parsed (pf : Platform) (schema : ObjectSchema) (value : JValue)
    (destination : schema.fields.Dest) : JsonParser :=
  ((schema.fields.request pf (.ofJson value) destination).1.finishParse schema.strict).1

theorem ObjectSchema.parsed_parseError (pf : Platform) (schema : ObjectSchema) {value : JValue}
    (hvalue : value.isValid = true) (destination : schema.fields.Dest) :
    (schema.parsed pf value destination).parseError =
      Failure.render pf (schema.failure value.members) :=
  finishParse_render pf schema.distinct.1 schema.strict hvalue
    (Fields.request_log pf schema.fields schema.distinct.2 (.ofJson value) destination)

/-- A decode fails exactly where there is a failure, and its error is the text of the first. -/
theorem ObjectSchema.getError_of_decode (pf : Platform) (schema : ObjectSchema)
    (ms : List (String × Json)) (destination : schema.fields.Dest) :
    (schema.parsed pf (.valid (.object ms)) destination).parseError =
        Failure.render pf (schema.failure ms) ∧
      (schema.failure ms = none ↔ schema.Conforms ms) := by
  have hvalid : (JValue.valid (.object ms)).isValid = true := rfl
  have herror := schema.parsed_parseError pf hvalid destination
  refine ⟨herror, ?_⟩
  have haccepts : (schema.decode pf ms destination).1 = true ↔ schema.Conforms ms :=
    (Fields.request_spec pf schema.fields schema.distinct.2 (.ofJson (.valid (.object ms)))
      destination).1.accepts schema.distinct.1 schema.strict
  rw [← haccepts, ← Failure.render_eq_empty_iff pf]
  rw [JValue.members_object] at herror
  rw [← herror]
  simp [ObjectSchema.parsed, ObjectSchema.decode, JsonParser.finishParse, JsonParser.hasError]

/-- The second of two objects in an array lacks a field. -/
example :
    let point : Fields := .item "x" (.leaf Nat 0 fun _ => .ok 0) false false .nil
    let schema : Fields := .array "points" (.object point false) false .nil
    schema.failure [("points", .array [.object [("x", .bool true)], .object []])] =
      some (.inside "points" (.field "x" .missing)) := rfl

end LSHelpers
