import LSHelpers.Json.Parser

/-!
# The other getters and the value checks

`getFromString`, `getAndMap` and `getObject` make a `get` of their own on the same
parser before they build the context they return. The modifiers of a context
either set a flag of it, store a default, or record an error.
-/

namespace LSHelpers

namespace JsonParseContext

variable {T : Type}

def defaultValue (c : JsonParseContext T) (value : T) : JsonParseContext T :=
  if !c.valueRead then { c with destination := value } else c

def min [LT T] [DecidableLT T] (c : JsonParseContext T) (value : T) : JsonParseContext T :=
  if c.valueRead && decide (c.destination < value) then
    { c with parser := c.parser.recordError c.fieldName "value less than minimum" }
  else c

def max [LT T] [DecidableLT T] (c : JsonParseContext T) (value : T) : JsonParseContext T :=
  if c.valueRead && decide (c.destination > value) then
    { c with parser := c.parser.recordError c.fieldName "value greater than maximum" }
  else c

def allowedValues [BEq T] (c : JsonParseContext T) (values : List T) : JsonParseContext T :=
  if c.valueRead then
    if values.any fun value => value == c.destination then c
    else { c with parser := c.parser.recordError c.fieldName "value not in allowed list" }
  else c

end JsonParseContext

namespace JsonParser

variable {T IT : Type}

/-- `parseValue<std::string>`. -/
def parseValueString (pf : Platform) : ParserFunc String :=
  fun value destination =>
    match value with
    | .valid (.string s) => (.ok (), s)
    | _ => (.error (.ofFormat pf "not a string"), destination)

/-- `parseValue<bool>`. -/
def parseValueBool (pf : Platform) : ParserFunc Bool :=
  fun value destination =>
    match value with
    | .valid (.bool b) => (.ok (), b)
    | _ => (.error (.ofFormat pf "not a boolean"), destination)

def getFromString (pf : Platform) (p : JsonParser) (name : String) (destination : T)
    (parserFunc : ParserFunc T) : JsonParseContext T :=
  let field := (get pf p name "" (parseValueString pf)).optional true
  let valueSet := field.checkValueRead
  let (p, stringValue) := field.finishParse
  let value := if valueSet then pf.fromString stringValue pf.allSchema else .valid .null
  getImpl pf p name value valueSet destination parserFunc

/-- The three overloads of `getAndMap` differ in how they look the value up: `find` is
`unordered_map::find`, or the loop for the first equal key of an array of pairs. -/
def getAndMap (pf : Platform) (p : JsonParser) (name : String) (destination : T)
    (intermediateValue : IT) (parserFunc : ParserFunc IT) (find : IT → Option T) :
    JsonParseContext T :=
  let field := (get pf p name intermediateValue parserFunc).optional true
  let valueRead := field.checkValueRead
  let (p, intermediateValue) := field.finishParse
  if valueRead then
    match find intermediateValue with
    | some value =>
        { parser := p, fieldName := name, destination := value, valueRead := true,
          valueNull := false }
    | none =>
        { parser := p.recordError name "value not in allowed values list", fieldName := name,
          destination, valueRead := false, valueNull := false }
  else { parser := p, fieldName := name, destination, valueRead := false, valueNull := false }

/-- The parser it was called on, and the parser of the sub-object. -/
def getObject (pf : Platform) (p : JsonParser) (name : String) : JsonParser × JsonParser :=
  let (p, obj) := (get pf p name (.valid .null) parseValueJValue).finishParse
  if !obj.isObject then
    (p.recordError name "object expected but got something else", ofJson (.valid .null))
  else (p, ofJson obj)

/-! ## What a getter does to the parser -/

/-- The first error text of two, where the empty text is no error. -/
def firstError (error error' : String) : String := if error = "" then error' else error

/-- The parser after `n` more fields were found and `error` was the first one recorded. -/
def log (p : JsonParser) (error : String) (n : Nat) : JsonParser :=
  { p with parseError := firstError p.parseError error, numberOfFields := p.numberOfFields + n }

@[simp] theorem firstError_empty_left (error : String) : firstError "" error = error := rfl

@[simp] theorem firstError_empty_right (error : String) : firstError error "" = error := by
  unfold firstError
  split
  · next h => exact h.symm
  · rfl

theorem firstError_assoc (error error' error'' : String) :
    firstError (firstError error error') error'' =
      firstError error (firstError error' error'') := by
  unfold firstError
  split <;> simp_all

theorem firstError_eq_empty_iff (error error' : String) :
    firstError error error' = "" ↔ error = "" ∧ error' = "" := by
  unfold firstError
  split <;> simp_all

@[simp] theorem log_jsonValue (p : JsonParser) (error : String) (n : Nat) :
    (p.log error n).jsonValue = p.jsonValue := rfl

@[simp] theorem log_numberOfFields (p : JsonParser) (error : String) (n : Nat) :
    (p.log error n).numberOfFields = p.numberOfFields + n := rfl

theorem log_empty (p : JsonParser) : p.log "" 0 = p := by
  simp [log]

theorem log_log (p : JsonParser) (error error' : String) (n m : Nat) :
    (p.log error n).log error' m = p.log (firstError error error') (n + m) := by
  simp only [log, firstError_assoc, Nat.add_assoc]

theorem recordError_eq_log (p : JsonParser) (fieldName message : String) :
    p.recordError fieldName message = p.log (errorText fieldName message) 0 := by
  unfold recordError log firstError
  split
  · rfl
  · rfl

theorem countField_eq_log (p : JsonParser) : p.countField = p.log "" 1 := by
  simp [countField, log]

theorem log_hasError (p : JsonParser) (error : String) (n : Nat) :
    (p.log error n).hasError = false ↔ p.hasError = false ∧ error = "" := by
  simp [hasError, log, firstError_eq_empty_iff]


end JsonParser

/-- The same context in a run on another parser. -/
def JsonParseContext.withParser {T : Type} (c : JsonParseContext T) (p : JsonParser) :
    JsonParseContext T := { c with parser := p }

theorem JsonParseContext.allowedValues_eq {T : Type} [BEq T] (c : JsonParseContext T)
    (values : List T) :
    c.allowedValues values =
      if c.valueRead && !values.any fun value => value == c.destination then
        c.withParser (c.parser.recordError c.fieldName "value not in allowed list")
      else c := by
  rcases c with ⟨p, fieldName, destination, valueRead, valueNull, isOptional, isAllowed⟩
  cases valueRead with
  | false => rfl
  | true =>
      simp only [allowedValues, if_true, Bool.true_and]
      cases values.any fun value => value == destination with
      | false => rfl
      | true => rfl

end LSHelpers
