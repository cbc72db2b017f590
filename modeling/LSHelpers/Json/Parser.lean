import LSHelpers.Json.Value

/-!
# The field parser

`JsonParser` with its first-error text and its count of fields found, and the
context a getter returns. The context of the source refers to its parser and to
the destination; here it carries both, and `finishParse` (the destructor at the
end of the `get` expression) hands them back. Returning a context makes no copy:
the return value is built in place, as the compiler elides it.
-/

namespace LSHelpers

structure JsonParseError where
  message : String
deriving Repr

/-- The constructor of the source: its argument is a printf format. -/
def JsonParseError.ofFormat (pf : Platform) (format : String) : JsonParseError :=
  ⟨pf.format format⟩

/-- A parse function stores into a destination, which keeps what was stored in it
when a `JsonParseError` is thrown. -/
abbrev ParserFunc (T : Type) := JValue → T → Except JsonParseError Unit × T

structure JsonParser where
  parseError : String
  jsonValue : JValue
  numberOfFields : Nat
deriving Repr

namespace JsonParser

def ofJson (json : JValue) : JsonParser :=
  ⟨if json.isValid then "" else "Malformed JSON.", json, 0⟩

def hasError (p : JsonParser) : Bool := p.parseError != ""

def errorText (fieldName message : String) : String :=
  "Failed to validate against schema: Field '" ++ fieldName ++ "' " ++ message

/-- Only the first error is kept. -/
def recordError (p : JsonParser) (fieldName message : String) : JsonParser :=
  if p.parseError = "" then { p with parseError := errorText fieldName message } else p

/-- One more field found. -/
def countField (p : JsonParser) : JsonParser := { p with numberOfFields := p.numberOfFields + 1 }

theorem errorText_ne_empty (fieldName message : String) : errorText fieldName message ≠ "" := by
  intro h
  have hprefix := (String.append_eq_empty_iff.mp (String.append_eq_empty_iff.mp
    (String.append_eq_empty_iff.mp h).1).1).1
  exact absurd hprefix (by decide)

@[simp] theorem recordError_hasError (p : JsonParser) (fieldName message : String) :
    (p.recordError fieldName message).hasError = true := by
  unfold recordError hasError
  split
  · exact bne_iff_ne.mpr (errorText_ne_empty fieldName message)
  · exact bne_iff_ne.mpr (by assumption)

@[simp] theorem recordError_jsonValue (p : JsonParser) (fieldName message : String) :
    (p.recordError fieldName message).jsonValue = p.jsonValue := by
  unfold recordError
  split <;> rfl

@[simp] theorem recordError_numberOfFields (p : JsonParser) (fieldName message : String) :
    (p.recordError fieldName message).numberOfFields = p.numberOfFields := by
  unfold recordError
  split <;> rfl

@[simp] theorem countField_hasError (p : JsonParser) : p.countField.hasError = p.hasError := rfl
@[simp] theorem countField_jsonValue (p : JsonParser) : p.countField.jsonValue = p.jsonValue := rfl
@[simp] theorem countField_numberOfFields (p : JsonParser) :
    p.countField.numberOfFields = p.numberOfFields + 1 := rfl

@[simp] theorem ofJson_hasError (x : Json) : (ofJson (.valid x)).hasError = false := rfl
@[simp] theorem ofJson_jsonValue (v : JValue) : (ofJson v).jsonValue = v := rfl
@[simp] theorem ofJson_numberOfFields (v : JValue) : (ofJson v).numberOfFields = 0 := rfl

end JsonParser

structure JsonParseContext (T : Type) where
  parser : JsonParser
  fieldName : String
  destination : T
  valueRead : Bool
  valueNull : Bool
  optionalFlag : Bool := false
  allowNullFlag : Bool := false

namespace JsonParseContext

variable {T : Type}

def optional (c : JsonParseContext T) (isOptional : Bool) : JsonParseContext T :=
  { c with optionalFlag := isOptional }

def allowNull (c : JsonParseContext T) (allowNull : Bool) : JsonParseContext T :=
  { c with allowNullFlag := allowNull }

/-- The flag `checkValueRead` stores. -/
def checkValueRead (c : JsonParseContext T) : Bool := c.valueRead

/-- The destructor's check, then the parser and the destination the context referred to. -/
def finishParse (c : JsonParseContext T) : JsonParser × T :=
  if !c.valueRead then
    if !c.optionalFlag then
      (c.parser.recordError c.fieldName "mandatory but not present", c.destination)
    else if c.valueNull && !c.allowNullFlag then
      (c.parser.recordError c.fieldName "null value is not allowed", c.destination)
    else (c.parser, c.destination)
  else (c.parser, c.destination)

end JsonParseContext

namespace JsonParser

variable {T : Type}

def getImpl (pf : Platform) (p : JsonParser) (name : String) (value : JValue) (hasKey : Bool)
    (destination : T) (parserFunc : ParserFunc T) : JsonParseContext T :=
  let isNull := hasKey && value.isNull pf
  if !hasKey || isNull then
    { parser := p, fieldName := name, destination, valueRead := false, valueNull := isNull }
  else
    match parserFunc value destination with
    | (.ok (), destination) =>
        { parser := p, fieldName := name, destination, valueRead := true, valueNull := false }
    | (.error e, destination) =>
        { parser := p.recordError name e.message, fieldName := name, destination,
          valueRead := false, valueNull := isNull }

def get (pf : Platform) (p : JsonParser) (name : String) (destination : T)
    (parserFunc : ParserFunc T) : JsonParseContext T :=
  let hasKey := p.jsonValue.hasKey name
  let v := if hasKey then p.jsonValue.field name else .valid .null
  let p := if hasKey then p.countField else p
  getImpl pf p name v hasKey destination parserFunc

/-- `parseValue<JValue>`. -/
def parseValueJValue : ParserFunc JValue := fun value _ => (.ok (), value)

/-- `parseValue<JsonDataObject>` over the `parseFromJson` of a data object. -/
def parseValueJsonDataObject (pf : Platform) (parseFromJson : ParserFunc T) : ParserFunc T :=
  fun value destination =>
    if !value.isObject then (.error (.ofFormat pf "not an object"), destination)
    else parseFromJson value destination

/-- The element loop of `getArray`: each element is parsed into a new last entry of
the destination, `fresh` before it is parsed, and its context ends with the statement. -/
def getItems (pf : Platform) (name : String) (fresh : T) (parserFunc : ParserFunc T) :
    List Json → JsonParser × List T → JsonParser × List T
  | [], r => r
  | item :: rest, (p, destination) =>
      let r := (getImpl pf p name (.valid item) true fresh parserFunc).finishParse
      getItems pf name fresh parserFunc rest (r.1, destination ++ [r.2])

def getArray (pf : Platform) (p : JsonParser) (name : String) (destination : List T) (fresh : T)
    (parserFunc : ParserFunc T) : JsonParseContext (List T) :=
  let field := (get pf p name (.valid .null) parseValueJValue).optional true
  let valueRead := field.checkValueRead
  let (p, array) := field.finishParse
  if valueRead then
    let isNull := array.isNull pf
    if !isNull then
      match array.items with
      | none =>
          { parser := p.recordError name "array expected but did not get one.", fieldName := name,
            destination, valueRead, valueNull := isNull }
      | some items =>
          let r := getItems pf name fresh parserFunc items (p, [])
          { parser := r.1, fieldName := name, destination := r.2, valueRead, valueNull := isNull }
    else { parser := p, fieldName := name, destination, valueRead, valueNull := isNull }
  else { parser := p, fieldName := name, destination, valueRead, valueNull := false }

def finishParse (p : JsonParser) (strict : Bool) : JsonParser × Bool :=
  let p :=
    if strict && p.numberOfFields != p.jsonValue.objectSize then
      p.recordError "" "unexpected fields in strict mode"
    else p
  (p, !p.hasError)

def finishParseOrThrow (pf : Platform) (p : JsonParser) (strict : Bool) :
    JsonParser × Except JsonParseError Unit :=
  let p := (p.finishParse strict).1
  (p, if p.hasError then .error (.ofFormat pf p.parseError) else .ok ())

/-! ## What a request leaves behind -/

/-- `q` is the parser `p` after requests that found `n` fields and recorded no error
of their own exactly when `ok` holds. -/
structure After (p q : JsonParser) (n : Nat) (ok : Prop) : Prop where
  jsonValue : q.jsonValue = p.jsonValue
  numberOfFields : q.numberOfFields = p.numberOfFields + n
  noError : q.hasError = false ↔ p.hasError = false ∧ ok

namespace After

theorem refl (p : JsonParser) : After p p 0 True := ⟨rfl, rfl, by simp⟩

theorem recordError (p : JsonParser) (fieldName message : String) :
    After p (p.recordError fieldName message) 0 False := ⟨by simp, by simp, by simp⟩

theorem countField (p : JsonParser) : After p p.countField 1 True := ⟨rfl, rfl, by simp⟩

theorem trans {p q r : JsonParser} {n m : Nat} {ok ok' : Prop} (h : After p q n ok)
    (h' : After q r m ok') : After p r (n + m) (ok ∧ ok') := by
  refine ⟨h'.jsonValue.trans h.jsonValue, ?_, ?_⟩
  · rw [h'.numberOfFields, h.numberOfFields, Nat.add_assoc]
  · rw [h'.noError, h.noError, and_assoc]

theorem congr {p q : JsonParser} {n n' : Nat} {ok ok' : Prop} (h : After p q n ok)
    (hn : n = n') (hok : ok ↔ ok') : After p q n' ok' := by
  subst hn
  exact ⟨h.jsonValue, h.numberOfFields, by rw [h.noError, hok]⟩

end After

section Requests

variable (pf : Platform) (p : JsonParser) (name : String) (destination : T)
  (parserFunc : ParserFunc T)

/-- A context fresh from `getImpl` is optional and allows null only once told so. -/
theorem getImpl_flags (value : JValue) (hasKey : Bool) :
    ((getImpl pf p name value hasKey destination parserFunc).optional false).allowNull false =
      getImpl pf p name value hasKey destination parserFunc := by
  unfold getImpl
  dsimp only
  split
  · rfl
  · split <;> rfl

/-- A value that is not null goes to the parse function, and an error it throws is
recorded whatever the modifiers. -/
theorem getImpl_finish (value : JValue) (optional allowNull : Bool)
    (h : value.isNull pf = false) :
    let r := (((getImpl pf p name value true destination parserFunc).optional optional).allowNull
      allowNull).finishParse
    After p r.1 0 ((parserFunc value destination).1 = .ok ()) ∧
      r.2 = (parserFunc value destination).2 := by
  rcases hf : parserFunc value destination with ⟨e | u, d⟩
  · have hrec := After.recordError p name e.message
    have htwice := hrec.trans (After.recordError _ name "mandatory but not present")
    cases optional
    · simpa [getImpl, h, hf, JsonParseContext.optional, JsonParseContext.allowNull,
        JsonParseContext.finishParse] using htwice
    · simpa [getImpl, h, hf, JsonParseContext.optional, JsonParseContext.allowNull,
        JsonParseContext.finishParse] using hrec
  · simpa [getImpl, h, hf, JsonParseContext.optional, JsonParseContext.allowNull,
      JsonParseContext.finishParse] using After.refl p

theorem get_absent (optional allowNull : Bool)
    (h : p.jsonValue.members.lookup name = none) :
    (((get pf p name destination parserFunc).optional optional).allowNull allowNull).finishParse =
      (if optional then p else p.recordError name "mandatory but not present", destination) := by
  cases optional <;>
    simp [get, getImpl, JValue.hasKey, h, JsonParseContext.optional, JsonParseContext.allowNull,
      JsonParseContext.finishParse]

theorem get_null (optional allowNull : Bool)
    (h : p.jsonValue.members.lookup name = some .null) :
    (((get pf p name destination parserFunc).optional optional).allowNull allowNull).finishParse =
      (if !optional then p.countField.recordError name "mandatory but not present"
        else if !allowNull then p.countField.recordError name "null value is not allowed"
        else p.countField, destination) := by
  cases optional <;> cases allowNull <;>
    simp [get, getImpl, JValue.hasKey, JValue.field, h, JsonParseContext.optional,
      JsonParseContext.allowNull, JsonParseContext.finishParse]

theorem get_value {x : Json} (h : p.jsonValue.members.lookup name = some x) :
    get pf p name destination parserFunc =
      getImpl pf p.countField name (.valid x) true destination parserFunc := by
  simp [get, JValue.hasKey, JValue.field, h]

/-- One request by `get`, in each of the cases its field can be in. -/
theorem get_after (optional allowNull : Bool) :
    let field := p.jsonValue.members.lookup name
    let r := (((get pf p name destination parserFunc).optional optional).allowNull
      allowNull).finishParse
    After p r.1 (if field.isSome then 1 else 0)
      (match field with
        | none => optional = true
        | some .null => optional = true ∧ allowNull = true
        | some x => (parserFunc (.valid x) destination).1 = .ok ()) ∧
    r.2 = (match field with
        | none | some .null => destination
        | some x => (parserFunc (.valid x) destination).2) := by
  dsimp only
  cases h : p.jsonValue.members.lookup name with
  | none =>
      rw [get_absent pf p name destination parserFunc optional allowNull h]
      refine ⟨?_, rfl⟩
      cases optional
      · exact (After.recordError p name _).congr rfl (by simp)
      · exact (After.refl p).congr rfl (by simp)
  | some x =>
      by_cases hx : x = .null
      · subst hx
        rw [get_null pf p name destination parserFunc optional allowNull h]
        refine ⟨?_, rfl⟩
        have hcount := After.countField p
        cases optional
        · exact (hcount.trans (After.recordError _ name _)).congr rfl (by simp)
        · cases allowNull
          · exact (hcount.trans (After.recordError _ name _)).congr rfl (by simp)
          · exact hcount.congr rfl (by simp)
      · have hnull : (JValue.valid x).isNull pf = false := JValue.isNull_valid_of_ne pf hx
        rw [get_value pf p name destination parserFunc h]
        obtain ⟨hafter, hdest⟩ := getImpl_finish pf p.countField name destination parserFunc
          (.valid x) optional allowNull hnull
        refine ⟨((After.countField p).trans hafter).congr rfl ?_, ?_⟩
        · cases x <;> simp_all
        · rw [hdest]
          cases x <;> simp_all

end Requests

section Arrays

variable (pf : Platform) (name : String) (fresh : T) (parserFunc : ParserFunc T)

/-- What the element loop stores for one element: null elements stay fresh. -/
def itemDest (x : Json) : T :=
  match x with
  | .null => fresh
  | x => (parserFunc (.valid x) fresh).2

theorem getItem_after (p : JsonParser) (x : Json) :
    let r := (getImpl pf p name (.valid x) true fresh parserFunc).finishParse
    After p r.1 0 (x ≠ .null ∧ (parserFunc (.valid x) fresh).1 = .ok ()) ∧
      r.2 = itemDest fresh parserFunc x := by
  by_cases hx : x = .null
  · subst hx
    exact ⟨(After.recordError p name _).congr rfl (by simp), rfl⟩
  · have hnull : (JValue.valid x).isNull pf = false := JValue.isNull_valid_of_ne pf hx
    have h := getImpl_finish pf p name fresh parserFunc (.valid x) false false hnull
    rw [getImpl_flags] at h
    refine ⟨h.1.congr rfl (by simp [hx]), h.2.trans ?_⟩
    cases x <;> simp_all [itemDest]

/-- The loop records no error exactly when no element is null or fails to parse. -/
theorem getItems_after (items : List Json) (p : JsonParser) (done : List T) :
    let r := getItems pf name fresh parserFunc items (p, done)
    After p r.1 0 (∀ x ∈ items, x ≠ .null ∧ (parserFunc (.valid x) fresh).1 = .ok ()) ∧
      r.2 = done ++ items.map (itemDest fresh parserFunc) := by
  induction items generalizing p done with
  | nil => exact ⟨(After.refl p).congr rfl (by simp), by simp [getItems]⟩
  | cons x items ih =>
      rcases getItem_after pf name fresh parserFunc p x with ⟨hitem, hdest⟩
      rcases ih _ (done ++ [itemDest fresh parserFunc x]) with ⟨hrest, hdests⟩
      simp only [getItems, hdest]
      refine ⟨(hitem.trans hrest).congr rfl ?_, ?_⟩
      · simp only [List.forall_mem_cons]
      · rw [hdests, List.map_cons, List.append_assoc]
        rfl

/-- One request by `getArray`. A null field is refused by the inner `get`, which is
optional but does not allow null. -/
theorem getArray_after (p : JsonParser) (destination : List T) (optional : Bool) :
    let field := p.jsonValue.members.lookup name
    let r := ((getArray pf p name destination fresh parserFunc).optional optional).finishParse
    After p r.1 (if field.isSome then 1 else 0)
      (match field with
        | none => optional = true
        | some (.array xs) => ∀ x ∈ xs, x ≠ .null ∧ (parserFunc (.valid x) fresh).1 = .ok ()
        | some _ => False) ∧
    r.2 = (match field with
        | some (.array xs) => xs.map (itemDest fresh parserFunc)
        | _ => destination) := by
  dsimp only
  cases h : p.jsonValue.members.lookup name with
  | none =>
      cases optional
      · have hrec := After.recordError p name "mandatory but not present"
        simpa [getArray, get, getImpl, JValue.hasKey, h, JsonParseContext.optional,
          JsonParseContext.checkValueRead, JsonParseContext.finishParse] using hrec
      · simpa [getArray, get, getImpl, JValue.hasKey, h, JsonParseContext.optional,
          JsonParseContext.checkValueRead, JsonParseContext.finishParse] using After.refl p
  | some x =>
      have hcount := After.countField p
      cases x with
      | null =>
          have hrec := hcount.trans (After.recordError _ name "null value is not allowed")
          have hboth := hrec.trans (After.recordError _ name "mandatory but not present")
          cases optional
          · simpa [getArray, get, getImpl, JValue.hasKey, JValue.field, h,
              JsonParseContext.optional, JsonParseContext.checkValueRead,
              JsonParseContext.finishParse] using hboth
          · simpa [getArray, get, getImpl, JValue.hasKey, JValue.field, h,
              JsonParseContext.optional, JsonParseContext.checkValueRead,
              JsonParseContext.finishParse] using hrec
      | array xs =>
          rcases getItems_after pf name fresh parserFunc xs p.countField [] with ⟨hitems, hdests⟩
          have hall := hcount.trans hitems
          simpa [getArray, get, getImpl, JValue.hasKey, JValue.field, h, JValue.isNull,
            JValue.items, parseValueJValue, JsonParseContext.optional,
            JsonParseContext.checkValueRead, JsonParseContext.finishParse, hdests] using hall
      | bool _ | number _ | string _ | object _ =>
          have hrec := hcount.trans
            (After.recordError _ name "array expected but did not get one.")
          simpa [getArray, get, getImpl, JValue.hasKey, JValue.field, h, JValue.isNull,
            JValue.items, parseValueJValue, JsonParseContext.optional,
            JsonParseContext.checkValueRead, JsonParseContext.finishParse] using hrec

end Arrays

section Finish

variable {p q : JsonParser} {n : Nat} {ok : Prop}

/-- The final check of a parser whose requests found `n` fields. -/
theorem After.finishParse (h : After p q n ok) (strict : Bool) :
    (q.finishParse strict).2 = true ↔
      p.hasError = false ∧ ok ∧
        (strict = true → p.numberOfFields + n = p.jsonValue.objectSize) := by
  rw [JsonParser.finishParse, ← and_assoc, ← h.noError, ← h.numberOfFields, ← h.jsonValue]
  cases strict <;> by_cases hn : q.numberOfFields = q.jsonValue.objectSize <;> simp [hn]

theorem After.finishParseOrThrow (h : After p q n ok) (pf : Platform) (strict : Bool) :
    (q.finishParseOrThrow pf strict).2 = .ok () ↔
      p.hasError = false ∧ ok ∧
        (strict = true → p.numberOfFields + n = p.jsonValue.objectSize) := by
  rw [← h.finishParse strict]
  simp only [JsonParser.finishParseOrThrow, JsonParser.finishParse]
  split <;> simp_all

end Finish

end JsonParser

end LSHelpers
