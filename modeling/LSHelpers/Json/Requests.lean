import LSHelpers.Json.Getters
import LSHelpers.Transition.Footprint
import Mathlib.Algebra.GroupWithZero.Nat
import Mathlib.Logic.Function.Basic

/-!
# Field requests on one parser

A request is one statement of the caller: a getter, the name of the field, the
variable it stores into and the chain of modifiers. The variables of the caller
have types of their own, and a flag is one of type `Bool`. All requests of a list
share the parser, with its first error and its count of fields, so what each
does to it is said apart from the parser it finds: the error it records first and
the number of fields it counts depend only on the JSON value and on its own
variables.
-/

namespace LSHelpers

inductive Getter : Type → Type 1
  | get {T : Type} (parserFunc : ParserFunc T) : Getter T
  | getFromString {T : Type} (parserFunc : ParserFunc T) : Getter T
  | getAndMap {IT T : Type} (intermediateValue : IT) (parserFunc : ParserFunc IT)
      (find : IT → Option T) : Getter T
  | getArray {T : Type} (fresh : T) (parserFunc : ParserFunc T) : Getter (List T)

/-- The context a getter returns. -/
def Getter.context (pf : Platform) {T : Type} (getter : Getter T) (p : JsonParser)
    (name : String) (destination : T) : JsonParseContext T :=
  match getter with
  | .get parserFunc => p.get pf name destination parserFunc
  | .getFromString parserFunc => p.getFromString pf name destination parserFunc
  | .getAndMap intermediateValue parserFunc find =>
      p.getAndMap pf name destination intermediateValue parserFunc find
  | .getArray fresh parserFunc => p.getArray pf name destination fresh parserFunc

section

variable {Var : Type} (Ty : Var → Type)

abbrev Memory := ∀ v, Ty v

/-- A variable of the caller that `checkValueRead` can be given. -/
structure Flag where
  var : Var
  isBool : Ty var = Bool

inductive Modifier (T : Type)
  | optional (isOptional : Bool)
  | allowNull (isAllowed : Bool)
  | checkValueRead (flag : Flag Ty)
  | defaultValue (value : T)
  | min [LT T] [DecidableLT T] (value : T)
  | max [LT T] [DecidableLT T] (value : T)
  | allowedValues [BEq T] (values : List T)

def Modifier.flag? {T : Type} {Ty : Var → Type} : Modifier Ty T → Option (Flag Ty)
  | .checkValueRead flag => some flag
  | _ => none

/-- One statement on the parser. -/
structure Request where
  destination : Var
  getter : Getter (Ty destination)
  name : String
  modifiers : List (Modifier Ty (Ty destination))

end

section

variable {Var : Type} [DecidableEq Var] {Ty : Var → Type} {v : Var}

def Memory.setFlag (m : Memory Ty) (flag : Flag Ty) (b : Bool) : Memory Ty :=
  Function.update m flag.var (cast flag.isBool.symm b)

/-- The destination is a reference, so a flag stored in the same variable shows in it. -/
def JsonParseContext.storeFlag (c : JsonParseContext (Ty v)) (flag : Flag Ty) :
    JsonParseContext (Ty v) :=
  if h : flag.var = v then
    { c with destination := cast ((congrArg Ty h.symm).trans flag.isBool).symm c.checkValueRead }
  else c

def Modifier.apply (modifier : Modifier Ty (Ty v)) (s : JsonParseContext (Ty v) × Memory Ty) :
    JsonParseContext (Ty v) × Memory Ty :=
  match modifier with
  | .optional isOptional => (s.1.optional isOptional, s.2)
  | .allowNull isAllowed => (s.1.allowNull isAllowed, s.2)
  | .checkValueRead flag => (s.1.storeFlag flag, s.2.setFlag flag s.1.checkValueRead)
  | .defaultValue value => (s.1.defaultValue value, s.2)
  | @Modifier.min _ _ _ _ _ value => (s.1.min value, s.2)
  | @Modifier.max _ _ _ _ _ value => (s.1.max value, s.2)
  | @Modifier.allowedValues _ _ _ _ values => (s.1.allowedValues values, s.2)

namespace Request

/-- The flags of the chain. -/
def flags (q : Request Ty) : List (Flag Ty) := q.modifiers.filterMap Modifier.flag?

/-- The variables a request may write. -/
def written (q : Request Ty) : Set Var :=
  fun v => v = q.destination ∨ ∃ flag ∈ q.flags, flag.var = v

/-- The getter, its modifiers in order, and the destructor of the context. -/
def run (pf : Platform) (q : Request Ty) (s : JsonParser × Memory Ty) : JsonParser × Memory Ty :=
  let c := q.getter.context pf s.1 q.name (s.2 q.destination)
  let r := q.modifiers.foldl (fun s modifier => modifier.apply s) (c, s.2)
  let d := r.1.finishParse
  (d.1, Function.update r.2 q.destination d.2)

def runAll (pf : Platform) (qs : List (Request Ty)) (s : JsonParser × Memory Ty) :
    JsonParser × Memory Ty :=
  qs.foldl (fun s q => q.run pf s) s

end Request

end

/-! ## What one getter does -/

section Getters

variable {T IT : Type} (pf : Platform) (x : Json) (name : String)

/-- On a parser of `x` the context is the same but for the parser in it, where one error
may have been recorded and `n` fields counted. -/
def Steady (n : Nat) (f : JsonParser → JsonParseContext T) : Prop :=
  ∃ (error : String) (c : JsonParseContext T), ∀ p, p.jsonValue = .valid x →
    f p = c.withParser (p.log error n)

/-- The number of fields a getter counts. -/
def foundFields : Nat := if (JValue.valid x).hasKey name then 1 else 0

theorem finishParse_eq (c : JsonParseContext T) :
    ∃ error, ∀ p, (c.withParser p).finishParse = (p.log error 0, c.destination) := by
  rcases c with ⟨p, fieldName, destination, valueRead, valueNull, isOptional, isAllowed⟩
  cases valueRead with
  | true =>
      refine ⟨"", fun p => ?_⟩
      rw [JsonParser.log_empty]
      rfl
  | false =>
      cases isOptional with
      | false =>
          refine ⟨JsonParser.errorText fieldName "mandatory but not present", fun p => ?_⟩
          rw [← JsonParser.recordError_eq_log]
          rfl
      | true =>
          cases valueNull with
          | false =>
              refine ⟨"", fun p => ?_⟩
              rw [JsonParser.log_empty]
              rfl
          | true =>
              cases isAllowed with
              | true =>
                  refine ⟨"", fun p => ?_⟩
                  rw [JsonParser.log_empty]
                  rfl
              | false =>
                  refine ⟨JsonParser.errorText fieldName "null value is not allowed", fun p => ?_⟩
                  rw [← JsonParser.recordError_eq_log]
                  rfl

theorem getImpl_eq (value : JValue) (hasKey : Bool) (destination : T)
    (parserFunc : ParserFunc T) :
    ∃ (error : String) (c : JsonParseContext T), ∀ p : JsonParser,
      p.getImpl pf name value hasKey destination parserFunc =
        c.withParser (p.log error 0) := by
  cases hset : !hasKey || hasKey && value.isNull pf with
  | true =>
      refine ⟨"", ⟨.ofJson .invalid, name, destination, false, hasKey && value.isNull pf, false,
        false⟩, fun p => ?_⟩
      simp only [JsonParser.getImpl, hset, if_true, JsonParser.log_empty]
      rfl
  | false =>
      rcases hparse : parserFunc value destination with ⟨e | u, d⟩
      · refine ⟨JsonParser.errorText name e.message, ⟨.ofJson .invalid, name, d, false,
          hasKey && value.isNull pf, false, false⟩, fun p => ?_⟩
        simp only [JsonParser.getImpl, hset, Bool.false_eq_true, if_false, hparse,
          JsonParser.recordError_eq_log]
        rfl
      · refine ⟨"", ⟨.ofJson .invalid, name, d, true, false, false, false⟩, fun p => ?_⟩
        simp only [JsonParser.getImpl, hset, Bool.false_eq_true, if_false, hparse,
          JsonParser.log_empty]
        rfl

theorem get_steady (destination : T) (parserFunc : ParserFunc T) :
    Steady x (foundFields x name) fun p => p.get pf name destination parserFunc := by
  obtain ⟨error, c, h⟩ := getImpl_eq pf name
    (if (JValue.valid x).hasKey name then (JValue.valid x).field name else .valid .null)
    ((JValue.valid x).hasKey name) destination parserFunc
  refine ⟨error, c, fun p hp => ?_⟩
  simp only [JsonParser.get, hp, h, foundFields]
  cases (JValue.valid x).hasKey name with
  | true => simp only [if_true, JsonParser.countField_eq_log, JsonParser.log_log,
      JsonParser.firstError_empty_left, Nat.add_zero]
  | false => rfl

/-- A nested `get`, which is optional: the flag it stores, the value it leaves and what it
does to the parser are the same on every parser of `x`. -/
theorem get_optional_steady (destination : T) (parserFunc : ParserFunc T) :
    ∃ error valueRead d, ∀ p : JsonParser, p.jsonValue = .valid x →
      let field := (p.get pf name destination parserFunc).optional true
      field.checkValueRead = valueRead ∧
        field.finishParse = (p.log error (foundFields x name), d) := by
  rcases get_steady pf x name destination parserFunc with ⟨error, c, h⟩
  rcases finishParse_eq (c.optional true) with ⟨error', h'⟩
  refine ⟨JsonParser.firstError error error', c.valueRead, c.destination, fun p hp => ?_⟩
  have hfield : (p.get pf name destination parserFunc).optional true =
      (c.optional true).withParser (p.log error (foundFields x name)) :=
    congrArg (fun c => c.optional true) (h p hp)
  simp only [hfield, h', JsonParser.log_log, Nat.add_zero]
  exact ⟨rfl, rfl⟩

theorem getFromString_steady (destination : T) (parserFunc : ParserFunc T) :
    Steady x (foundFields x name) fun p => p.getFromString pf name destination parserFunc := by
  obtain ⟨error, valueSet, d, h⟩ :=
    get_optional_steady pf x name "" (JsonParser.parseValueString pf)
  obtain ⟨error', c, h'⟩ := getImpl_eq pf name
    (if valueSet then pf.fromString d pf.allSchema else .valid .null) valueSet destination
    parserFunc
  refine ⟨JsonParser.firstError error error', c, fun p hp => ?_⟩
  rcases h p hp with ⟨hset, hfinish⟩
  simp only [JsonParser.getFromString, hset, hfinish, h', JsonParser.log_log, Nat.add_zero]

theorem getAndMap_steady (destination : T) (intermediateValue : IT) (parserFunc : ParserFunc IT)
    (find : IT → Option T) :
    Steady x (foundFields x name) fun p =>
      p.getAndMap pf name destination intermediateValue parserFunc find := by
  rcases get_optional_steady pf x name intermediateValue parserFunc with ⟨error, valueRead, d, h⟩
  cases valueRead with
  | false =>
      refine ⟨error, ⟨.ofJson .invalid, name, destination, false, false, false, false⟩,
        fun p hp => ?_⟩
      rcases h p hp with ⟨hread, hfinish⟩
      simp only [JsonParser.getAndMap, hread, hfinish, Bool.false_eq_true, if_false]
      rfl
  | true =>
      cases hfind : find d with
      | some value =>
          refine ⟨error, ⟨.ofJson .invalid, name, value, true, false, false, false⟩,
            fun p hp => ?_⟩
          rcases h p hp with ⟨hread, hfinish⟩
          simp only [JsonParser.getAndMap, hread, hfinish, if_true, hfind]
          rfl
      | none =>
          refine ⟨JsonParser.firstError error
            (JsonParser.errorText name "value not in allowed values list"),
            ⟨.ofJson .invalid, name, destination, false, false, false, false⟩, fun p hp => ?_⟩
          rcases h p hp with ⟨hread, hfinish⟩
          simp only [JsonParser.getAndMap, hread, hfinish, if_true, hfind,
            JsonParser.recordError_eq_log, JsonParser.log_log, Nat.add_zero]
          rfl

/-- The element loop of `getArray` records on the parser what the elements give. -/
theorem getItems_eq (fresh : T) (parserFunc : ParserFunc T) (items : List Json)
    (done : List T) :
    ∃ error ds, ∀ p, JsonParser.getItems pf name fresh parserFunc items (p, done) =
      (p.log error 0, ds) := by
  induction items generalizing done with
  | nil =>
      refine ⟨"", done, fun p => ?_⟩
      rw [JsonParser.log_empty]
      rfl
  | cons item items ih =>
      rcases getImpl_eq pf name (.valid item) true fresh parserFunc with ⟨error, c, h⟩
      rcases finishParse_eq c with ⟨error', h'⟩
      rcases ih (done ++ [c.destination]) with ⟨error'', ds, hrest⟩
      refine ⟨JsonParser.firstError error (JsonParser.firstError error' error''), ds,
        fun p => ?_⟩
      simp only [JsonParser.getItems, h, h', hrest, JsonParser.log_log,
        JsonParser.firstError_assoc, Nat.add_zero]

theorem getArray_steady (destination : List T) (fresh : T) (parserFunc : ParserFunc T) :
    Steady x (foundFields x name) fun p =>
      p.getArray pf name destination fresh parserFunc := by
  obtain ⟨error, valueRead, array, h⟩ :=
    get_optional_steady pf x name (.valid .null) JsonParser.parseValueJValue
  cases valueRead with
  | false =>
      refine ⟨error, ⟨.ofJson .invalid, name, destination, false, false, false, false⟩,
        fun p hp => ?_⟩
      rcases h p hp with ⟨hread, hfinish⟩
      simp only [JsonParser.getArray, hread, hfinish, Bool.false_eq_true, if_false]
      rfl
  | true =>
      cases hnull : array.isNull pf with
      | true =>
          refine ⟨error, ⟨.ofJson .invalid, name, destination, true, true, false, false⟩,
            fun p hp => ?_⟩
          rcases h p hp with ⟨hread, hfinish⟩
          simp only [JsonParser.getArray, hread, hfinish, hnull, if_true, Bool.not_true,
            Bool.false_eq_true, if_false]
          rfl
      | false =>
          cases hitems : array.items with
          | none =>
              refine ⟨JsonParser.firstError error
                (JsonParser.errorText name "array expected but did not get one."),
                ⟨.ofJson .invalid, name, destination, true, false, false, false⟩,
                fun p hp => ?_⟩
              rcases h p hp with ⟨hread, hfinish⟩
              simp only [JsonParser.getArray, hread, hfinish, hnull, hitems, if_true,
                Bool.not_false, JsonParser.recordError_eq_log, JsonParser.log_log, Nat.add_zero]
              rfl
          | some items =>
              rcases getItems_eq pf name fresh parserFunc items [] with ⟨error', ds, h'⟩
              refine ⟨JsonParser.firstError error error',
                ⟨.ofJson .invalid, name, ds, true, false, false, false⟩, fun p hp => ?_⟩
              rcases h p hp with ⟨hread, hfinish⟩
              simp only [JsonParser.getArray, hread, hfinish, hnull, hitems, if_true,
                Bool.not_false, h', JsonParser.log_log, Nat.add_zero]
              rfl

theorem Getter.context_steady (getter : Getter T) (destination : T) :
    Steady x (foundFields x name) fun p => getter.context pf p name destination := by
  cases getter with
  | get parserFunc => exact get_steady pf x name destination parserFunc
  | getFromString parserFunc => exact getFromString_steady pf x name destination parserFunc
  | getAndMap intermediateValue parserFunc find =>
      exact getAndMap_steady pf x name destination intermediateValue parserFunc find
  | getArray fresh parserFunc => exact getArray_steady pf x name destination fresh parserFunc

end Getters

/-! ## What one request does -/

section Chains

variable {Var : Type} [DecidableEq Var] {Ty : Var → Type} {T : Type} {v : Var}

def Memory.setFlags (m : Memory Ty) (flags : List (Flag Ty)) (b : Bool) : Memory Ty :=
  flags.foldl (fun m flag => m.setFlag flag b) m

/-- What a modifier leaves of a context, of the parser behind it and of the flags. -/
def ModifierEffect (c : JsonParseContext T) (flags : List (Flag Ty))
    (f : JsonParser → Memory Ty → JsonParseContext T × Memory Ty) : Prop :=
  ∃ (error : String) (c' : JsonParseContext T), c'.valueRead = c.valueRead ∧
    ∀ p m, f p m = (c'.withParser (p.log error 0), m.setFlags flags c.valueRead)

theorem ModifierEffect.keep {c : JsonParseContext T} (c' : JsonParseContext T)
    (h : c'.valueRead = c.valueRead) :
    ModifierEffect c ([] : List (Flag Ty)) fun p m => (c'.withParser p, m) := by
  refine ⟨"", c', h, fun p m => ?_⟩
  rw [JsonParser.log_empty]
  rfl

/-- A check that fails on the value read records its message. -/
theorem ModifierEffect.check (c : JsonParseContext T) (failed : Bool) (message : String) :
    ModifierEffect c ([] : List (Flag Ty)) fun p m =>
      (if failed then c.withParser (p.recordError c.fieldName message) else c.withParser p, m) := by
  cases failed with
  | true =>
      refine ⟨JsonParser.errorText c.fieldName message, c, rfl, fun p m => ?_⟩
      rw [← JsonParser.recordError_eq_log]
      rfl
  | false => exact .keep c rfl

/-- A modifier reads the flag of its context and nothing else outside its destination. -/
theorem Modifier.apply_effect (modifier : Modifier Ty (Ty v)) (c : JsonParseContext (Ty v)) :
    ModifierEffect c modifier.flag?.toList fun p m => modifier.apply (c.withParser p, m) := by
  cases modifier with
  | optional isOptional => exact .keep (c.optional isOptional) rfl
  | allowNull isAllowed => exact .keep (c.allowNull isAllowed) rfl
  | checkValueRead flag =>
      by_cases h : flag.var = v
      · refine ⟨"", c.storeFlag flag, ?_, fun p m => ?_⟩
        · simp only [JsonParseContext.storeFlag, h, dif_pos]
        · simp only [Modifier.apply, JsonParseContext.storeFlag, h, dif_pos, JsonParser.log_empty]
          rfl
      · refine ⟨"", c, rfl, fun p m => ?_⟩
        simp only [Modifier.apply, JsonParseContext.storeFlag, h, dif_neg, not_false_eq_true,
          JsonParser.log_empty]
        rfl
  | defaultValue value =>
      rcases c with ⟨p, fieldName, destination, valueRead, valueNull, isOptional, isAllowed⟩
      cases valueRead with
      | true => exact .keep _ rfl
      | false => exact .keep ⟨p, fieldName, value, false, valueNull, isOptional, isAllowed⟩ rfl
  | min value =>
      exact .check c (c.valueRead && decide (c.destination < value)) "value less than minimum"
  | max value =>
      exact .check c (c.valueRead && decide (c.destination > value)) "value greater than maximum"
  | allowedValues values =>
      have heq : ∀ p, (c.withParser p).allowedValues values = _ := fun p =>
        (c.withParser p).allowedValues_eq values
      have h : ModifierEffect c ([] : List (Flag Ty)) _ :=
        .check c (c.valueRead && !values.any fun value => value == c.destination)
          "value not in allowed list"
      simp only [Modifier.apply, Modifier.flag?, Option.toList, heq]
      exact h

/-- The whole chain, by induction on it. -/
theorem modifiers_effect (modifiers : List (Modifier Ty (Ty v))) (c : JsonParseContext (Ty v)) :
    ModifierEffect c (modifiers.filterMap Modifier.flag?) fun p m =>
      modifiers.foldl (fun s modifier => modifier.apply s) (c.withParser p, m) := by
  induction modifiers generalizing c with
  | nil => exact .keep c rfl
  | cons modifier modifiers ih =>
      rcases modifier.apply_effect c with ⟨error, c', hread, h⟩
      rcases ih c' with ⟨error', c'', hread', h'⟩
      refine ⟨JsonParser.firstError error error', c'', hread'.trans hread, fun p m => ?_⟩
      have hflags : (modifier :: modifiers).filterMap Modifier.flag? =
          modifier.flag?.toList ++ modifiers.filterMap Modifier.flag? := by
        cases hflag : modifier.flag? <;> simp [hflag]
      simp only [List.foldl_cons, h, h', hread, hflags, JsonParser.log_log, Memory.setFlags,
        List.foldl_append, Nat.add_zero]

/-- A request reads its destination and writes its destination and flags; what it does
to the parser is fixed by the JSON value and by what the destination held. -/
theorem Request.run_effect (pf : Platform) (q : Request Ty) (x : Json) (d : Ty q.destination) :
    ∃ error valueRead d', ∀ (p : JsonParser) (m : Memory Ty), p.jsonValue = .valid x →
      m q.destination = d →
      q.run pf (p, m) = (p.log error (foundFields x q.name),
        Function.update (m.setFlags q.flags valueRead) q.destination d') := by
  rcases q.getter.context_steady pf x q.name d with ⟨error, c, h⟩
  rcases modifiers_effect q.modifiers c with ⟨error', c', hread, h'⟩
  rcases finishParse_eq c' with ⟨error'', h''⟩
  refine ⟨JsonParser.firstError error (JsonParser.firstError error' error''), c.valueRead,
    c'.destination, fun p m hp hd => ?_⟩
  simp only [Request.run, Request.flags, hd, h p hp, h', h'', JsonParser.log_log,
    JsonParser.firstError_assoc, Nat.add_zero]

end Chains

end LSHelpers
