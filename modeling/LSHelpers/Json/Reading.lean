import LSHelpers.Json.Chain

/-!
# What a getter makes of a field

`Reading` is what the context of a getter says about its field: whether an error was
recorded on the way, whether a value was read or a null was found, and what the
destination holds. `Getter.reading` gives it from the field alone, and `Reads` ties
it to the context. With the chain of the request it decides everything the request
leaves.
-/

namespace LSHelpers

open JsonParser

variable {T IT : Type}

structure Reading (T : Type) where
  failed : Bool
  valueRead : Bool
  valueNull : Bool
  destination : T

namespace Reading

def absent (d : T) : Reading T := ⟨false, false, false, d⟩

def null (d : T) : Reading T := ⟨false, false, true, d⟩

/-- An error was recorded and nothing was read. -/
def failure (d : T) : Reading T := ⟨true, false, false, d⟩

def value (d : T) : Reading T := ⟨false, true, false, d⟩

/-- A value given to the parse function, where null means not set. -/
def ofValue (pf : Platform) (v : JValue) (d : T) (parserFunc : ParserFunc T) : Reading T :=
  if v.isNull pf then null d
  else
    match parserFunc v d with
    | (.ok (), d) => value d
    | (.error _, d) => failure d

/-- The value looked up for the intermediate one that was read. -/
def mapped (r : Reading IT) (find : IT → Option T) (d : T) : Reading T :=
  if r.valueRead then
    match find r.destination with
    | some t => value t
    | none => failure d
  else failure d

/-- The elements of an array: the context counts as read whatever becomes of them. -/
def elements (rs : List (Reading T)) : Reading (List T) :=
  ⟨rs.any fun r => !r.valueRead, true, false, rs.map Reading.destination⟩

end Reading

/-- The reading of a field, `none` where the object has no such key. -/
def Getter.reading (pf : Platform) (getter : Getter T) (field : Option Json) (d : T) : Reading T :=
  match getter, field with
  | _, none => .absent d
  | .get parserFunc, some x => .ofValue pf (.valid x) d parserFunc
  | .getFromString parserFunc, some (.string s) =>
      .ofValue pf (pf.fromString s pf.allSchema) d parserFunc
  | .getFromString _, some _ => .failure d
  | .getAndMap intermediateValue parserFunc find, some x =>
      (Reading.ofValue pf (.valid x) intermediateValue parserFunc).mapped find d
  | .getArray fresh parserFunc, some (.array xs) =>
      .elements (xs.map fun x => .ofValue pf (.valid x) fresh parserFunc)
  | .getArray _ _, some .null => .failure d
  | .getArray _ _, some _ => ⟨true, true, false, d⟩

/-- The context `c`, made from the parser `p`, says what `r` says, and `n` fields were
counted. -/
structure Reads (p : JsonParser) (name : String) (c : JsonParseContext T) (n : Nat)
    (r : Reading T) : Prop where
  parser : After p c.parser n (r.failed = false)
  fieldName : c.fieldName = name
  valueRead : c.valueRead = r.valueRead
  valueNull : c.valueNull = r.valueNull
  destination : c.destination = r.destination
  optionalFlag : c.optionalFlag = false
  allowNullFlag : c.allowNullFlag = false

/-- A context made on the spot from the parser `q`. -/
theorem Reads.made {p q : JsonParser} {name : String} {c : JsonParseContext T} {n : Nat}
    {r : Reading T} (h : After p q n (r.failed = false))
    (hc : c = ⟨q, name, r.destination, r.valueRead, r.valueNull, false, false⟩) :
    Reads p name c n r := by
  subst hc
  exact ⟨h, rfl, rfl, rfl, rfl, rfl, rfl⟩

section

variable (pf : Platform) (p : JsonParser) (name : String)

theorem getImpl_absent (value : JValue) (d : T) (parserFunc : ParserFunc T) :
    Reads p name (getImpl pf p name value false d parserFunc) 0 (.absent d) :=
  .made ((After.refl p).congr rfl (by simp [Reading.absent])) rfl

theorem getImpl_reads (value : JValue) (d : T) (parserFunc : ParserFunc T) :
    Reads p name (getImpl pf p name value true d parserFunc) 0
      (.ofValue pf value d parserFunc) := by
  unfold getImpl Reading.ofValue
  cases hnull : value.isNull pf with
  | true => exact .made ((After.refl p).congr rfl (by simp [Reading.null])) rfl
  | false =>
      rcases hparse : parserFunc value d with ⟨e | u, d'⟩
      · exact .made ((After.recordError p name e.message).congr rfl (by simp [Reading.failure])) rfl
      · exact .made ((After.refl p).congr rfl (by simp [Reading.value])) rfl

/-- The number of fields a request counts. -/
def counted (field : Option Json) : Nat := if field.isSome then 1 else 0

/-- A context from a parser that has counted the field. -/
theorem Reads.of_countField {p : JsonParser} {c : JsonParseContext T} {r : Reading T}
    (h : Reads p.countField name c 0 r) : Reads p name c 1 r :=
  ⟨((After.countField p).trans h.parser).congr rfl (by simp), h.fieldName, h.valueRead,
    h.valueNull, h.destination, h.optionalFlag, h.allowNullFlag⟩

theorem get_reads (d : T) (parserFunc : ParserFunc T) :
    let field := p.jsonValue.members.lookup name
    Reads p name (p.get pf name d parserFunc) (counted field)
      ((Getter.get parserFunc).reading pf field d) := by
  dsimp only
  cases h : p.jsonValue.members.lookup name with
  | none =>
      have hget : p.get pf name d parserFunc =
          getImpl pf p name (.valid .null) false d parserFunc := by
        simp [JsonParser.get, JValue.hasKey, h]
      rw [hget]
      exact getImpl_absent pf p name _ d parserFunc
  | some x =>
      rw [get_value pf p name d parserFunc h]
      exact (getImpl_reads pf p.countField name (.valid x) d parserFunc).of_countField

theorem get_reading_valueNull (parserFunc : ParserFunc T) (field : Option Json) (d : T)
    (h : ((Getter.get parserFunc).reading pf field d).valueRead = true) :
    ((Getter.get parserFunc).reading pf field d).valueNull = false := by
  cases field with
  | none => rfl
  | some x =>
      revert h
      simp only [Getter.reading, Reading.ofValue]
      split
      · simp [Reading.null]
      · split <;> simp [Reading.value, Reading.failure]

/-- The nested `get` of the other getters, optional but not allowing null. -/
theorem get_nested (d : T) (parserFunc : ParserFunc T) :
    let field := p.jsonValue.members.lookup name
    let r := (Getter.get parserFunc).reading pf field d
    let nested := (p.get pf name d parserFunc).optional true
    nested.checkValueRead = r.valueRead ∧ nested.finishParse.2 = r.destination ∧
      After p nested.finishParse.1 (counted field) (r.failed = false ∧ r.valueNull = false) := by
  dsimp only
  have hreads := get_reads pf p name d parserFunc
  have hnull := get_reading_valueNull pf parserFunc (p.jsonValue.members.lookup name) d
  dsimp only at hreads
  generalize (Getter.get parserFunc).reading pf _ d = r at hreads hnull ⊢
  have hfinish := ((p.get pf name d parserFunc).optional true).finishParse_after
  refine ⟨hreads.valueRead, hfinish.2.trans hreads.destination, ?_⟩
  refine (hreads.parser.trans hfinish.1).congr (Nat.add_zero _) ?_
  simp only [JsonParseContext.optional, hreads.valueRead, hreads.valueNull, hreads.allowNullFlag]
  cases hread : r.valueRead with
  | true => simp [hnull hread]
  | false => simp

/-! ## The getters with a nested `get` -/

/-- A context made from a parser that the nested `get` has left. -/
theorem Reads.of_after {p q : JsonParser} {c : JsonParseContext T} {n : Nat} {failed : Bool}
    {r : Reading T} (h : After p q n (failed = false)) (hc : Reads q name c 0 r) :
    Reads p name c n { r with failed := failed || r.failed } := by
  refine ⟨(h.trans hc.parser).congr rfl ?_, hc.fieldName, hc.valueRead, hc.valueNull,
    hc.destination, hc.optionalFlag, hc.allowNullFlag⟩
  cases failed <;> simp

theorem Reading.ofValue_cases (v : JValue) (d : T) (parserFunc : ParserFunc T) :
    (∃ d', Reading.ofValue pf v d parserFunc = .value d') ∨
      Reading.ofValue pf v d parserFunc = .null d ∨
      ∃ d', Reading.ofValue pf v d parserFunc = .failure d' := by
  unfold Reading.ofValue
  split
  · exact .inr (.inl rfl)
  · split
    · exact .inl ⟨_, rfl⟩
    · exact .inr (.inr ⟨_, rfl⟩)

theorem getFromString_reads (d : T) (parserFunc : ParserFunc T) :
    let field := p.jsonValue.members.lookup name
    Reads p name (p.getFromString pf name d parserFunc) (counted field)
      ((Getter.getFromString parserFunc).reading pf field d) := by
  dsimp only
  rcases get_nested pf p name "" (parseValueString pf) with ⟨hread, hdest, hafter⟩
  unfold JsonParser.getFromString
  dsimp only
  cases hfield : p.jsonValue.members.lookup name with
  | none =>
      rw [hfield] at hread hafter
      rw [hread]
      have hkept : After p _ _ (false = false) := hafter.congr rfl
        (by simp [Getter.reading, Reading.absent])
      exact .of_after name hkept (getImpl_absent pf _ name _ d parserFunc)
  | some x =>
      rw [hfield] at hread hdest hafter
      cases x with
      | string s =>
          have hstring : (Getter.get (parseValueString pf)).reading pf (some (.string s)) "" =
              .value s := rfl
          rw [hstring] at hread hdest hafter
          rw [hread, hdest]
          have hkept : After p _ _ (false = false) := hafter.congr rfl (by simp [Reading.value])
          exact .of_after name hkept
            (getImpl_reads pf _ name (pf.fromString s pf.allSchema) d parserFunc)
      | null =>
          rw [hread]
          have hfailed : After p _ _ (true = false) := hafter.congr rfl
            (by simp [Getter.reading, Reading.ofValue, Reading.null])
          exact .of_after name hfailed (getImpl_absent pf _ name _ d parserFunc)
      | bool | number | array | object =>
          rw [hread]
          have hfailed : After p _ _ (true = false) := hafter.congr rfl
            (by simp [Getter.reading, Reading.ofValue, JValue.isNull, parseValueString,
              Reading.failure])
          exact .of_after name hfailed (getImpl_absent pf _ name _ d parserFunc)

theorem getAndMap_reads (d : T) (intermediateValue : IT) (parserFunc : ParserFunc IT)
    (find : IT → Option T) :
    let field := p.jsonValue.members.lookup name
    Reads p name (p.getAndMap pf name d intermediateValue parserFunc find) (counted field)
      ((Getter.getAndMap intermediateValue parserFunc find).reading pf field d) := by
  dsimp only
  rcases get_nested pf p name intermediateValue parserFunc with ⟨hread, hdest, hafter⟩
  unfold JsonParser.getAndMap
  dsimp only
  cases hfield : p.jsonValue.members.lookup name with
  | none =>
      rw [hfield] at hread hafter
      rw [hread]
      exact .made (hafter.congr rfl (by simp [Getter.reading, Reading.absent])) rfl
  | some x =>
      rw [hfield] at hread hdest hafter
      have hmapped : (Getter.getAndMap intermediateValue parserFunc find).reading pf (some x) d =
          ((Getter.get parserFunc).reading pf (some x) intermediateValue).mapped find d := rfl
      rw [hmapped]
      rcases Reading.ofValue_cases pf (.valid x) intermediateValue parserFunc with
        ⟨i, hr⟩ | hr | ⟨i, hr⟩
      · have hr' : (Getter.get parserFunc).reading pf (some x) intermediateValue = .value i := hr
        rw [hr'] at hread hdest hafter ⊢
        rw [hread, hdest]
        have hkept : After p _ _ True := hafter.congr rfl (by simp [Reading.value])
        show Reads p name (if true = true then match find i with | some _ => _ | none => _ else _) _
          (if true = true then match find i with | some _ => _ | none => _ else _)
        cases find i with
        | some t => exact .made (hkept.congr rfl (by simp [Reading.value])) rfl
        | none =>
            have hrecord := hkept.trans (.recordError _ name "value not in allowed values list")
            exact .made (hrecord.congr rfl (by simp [Reading.failure])) rfl
      · have hr' : (Getter.get parserFunc).reading pf (some x) intermediateValue =
            .null intermediateValue := hr
        rw [hr'] at hread hafter ⊢
        rw [hread]
        exact .made (hafter.congr rfl (by simp [Reading.null, Reading.mapped, Reading.failure])) rfl
      · have hr' : (Getter.get parserFunc).reading pf (some x) intermediateValue =
            .failure i := hr
        rw [hr'] at hread hafter ⊢
        rw [hread]
        exact .made (hafter.congr rfl (by simp [Reading.mapped, Reading.failure])) rfl

theorem Reading.ofValue_valueRead (x : Json) (d : T) (parserFunc : ParserFunc T) :
    (Reading.ofValue pf (.valid x) d parserFunc).valueRead = true ↔
      x ≠ .null ∧ (parserFunc (.valid x) d).1 = .ok () := by
  unfold Reading.ofValue
  by_cases hx : x = .null
  · simp [hx, Reading.null]
  · have hnull : (JValue.valid x).isNull pf = false := JValue.isNull_valid_of_ne pf hx
    rcases hparse : parserFunc (.valid x) d with ⟨e | u, d'⟩
    · simp [hnull, Reading.failure]
    · simp [hx, hnull, Reading.value]

theorem itemDest_of_ne_null {x : Json} (hx : x ≠ .null) (fresh : T) (parserFunc : ParserFunc T) :
    itemDest fresh parserFunc x = (parserFunc (.valid x) fresh).2 := by
  cases x with
  | null => exact absurd rfl hx
  | bool | number | string | array | object => rfl

theorem Reading.ofValue_destination (x : Json) (d : T) (parserFunc : ParserFunc T) :
    (Reading.ofValue pf (.valid x) d parserFunc).destination = itemDest d parserFunc x := by
  by_cases hx : x = .null
  · subst hx
    rfl
  · have hnull : (JValue.valid x).isNull pf = false := JValue.isNull_valid_of_ne pf hx
    rw [itemDest_of_ne_null hx]
    rcases hparse : parserFunc (.valid x) d with ⟨e | u, d'⟩ <;>
      simp [Reading.ofValue, hnull, hparse, Reading.failure, Reading.value]

theorem getArray_reads (d : List T) (fresh : T) (parserFunc : ParserFunc T) :
    let field := p.jsonValue.members.lookup name
    Reads p name (p.getArray pf name d fresh parserFunc) (counted field)
      ((Getter.getArray fresh parserFunc).reading pf field d) := by
  dsimp only
  rcases get_nested pf p name (.valid .null) parseValueJValue with ⟨hread, hdest, hafter⟩
  unfold JsonParser.getArray
  dsimp only
  cases hfield : p.jsonValue.members.lookup name with
  | none =>
      rw [hfield] at hread hafter
      rw [hread]
      exact .made (hafter.congr rfl (by simp [Getter.reading, Reading.absent])) rfl
  | some x =>
      rw [hfield] at hread hdest hafter
      rw [hread, hdest]
      cases x with
      | null =>
          exact .made (hafter.congr rfl
            (by simp [Getter.reading, Reading.ofValue, Reading.null, Reading.failure])) rfl
      | array xs =>
          have hkept : After p _ _ True := hafter.congr rfl
            (by simp [Getter.reading, Reading.ofValue, JValue.isNull, parseValueJValue,
              Reading.value])
          rcases getItems_after pf name fresh parserFunc xs
            ((p.get pf name (.valid .null) parseValueJValue).optional true).finishParse.1 []
            with ⟨hitems, hdests⟩
          refine ⟨(hkept.trans hitems).congr (Nat.add_zero _) ?_, rfl, rfl, rfl, hdests.trans ?_,
            rfl, rfl⟩
          · simp [Getter.reading, Reading.elements, ← Reading.ofValue_valueRead pf]
          · simp [Getter.reading, Reading.elements, Reading.ofValue_destination]
      | bool | number | string | object =>
          have hkept : After p _ _ True := hafter.congr rfl
            (by simp [Getter.reading, Reading.ofValue, JValue.isNull, parseValueJValue,
              Reading.value])
          have hrecord := hkept.trans (.recordError _ name "array expected but did not get one.")
          exact .made (hrecord.congr rfl (by simp [Getter.reading])) rfl

/-- The context of every getter, on every parser. -/
theorem Getter.context_reads (getter : Getter T) (d : T) :
    let field := p.jsonValue.members.lookup name
    Reads p name (getter.context pf p name d) (counted field) (getter.reading pf field d) := by
  cases getter with
  | get parserFunc => exact get_reads pf p name d parserFunc
  | getFromString parserFunc => exact getFromString_reads pf p name d parserFunc
  | getAndMap intermediateValue parserFunc find =>
      exact getAndMap_reads pf p name d intermediateValue parserFunc find
  | getArray fresh parserFunc => exact getArray_reads pf p name d fresh parserFunc

/-! ## The request as a whole -/

/-- The chain accepts what was read, or that nothing was. -/
structure Reading.Accepted (r : Reading T) (chain : List (Constraint T)) : Prop where
  noError : r.failed = false
  value : r.valueRead = true → ∀ k ∈ chain, k.refuses r.destination = false
  present : r.valueRead = false → isOptional chain = true
  notNull : r.valueRead = false → r.valueNull = true → allowsNull chain = true

theorem Getter.finish_after (getter : Getter T) (d : T) (chain : List (Constraint T)) :
    let field := p.jsonValue.members.lookup name
    After p ((getter.context pf p name d).finish chain).parser (counted field)
      ((getter.reading pf field d).Accepted chain) := by
  dsimp only
  have hreads := getter.context_reads pf p name d
  have hchain := (getter.context pf p name d).finish_after chain
  refine (hreads.parser.trans hchain).congr (Nat.add_zero _) ?_
  constructor
  · intro h
    refine ⟨h.1, ?_, ?_, ?_⟩
    · simpa only [hreads.valueRead, hreads.destination] using h.2.value
    · simpa only [hreads.valueRead, hreads.optionalFlag, isOptional] using h.2.present
    · simpa only [hreads.valueRead, hreads.valueNull, hreads.allowNullFlag, allowsNull]
        using h.2.notNull
  · intro h
    refine ⟨h.noError, ?_, ?_, ?_⟩
    · simpa only [hreads.valueRead, hreads.destination] using h.value
    · simpa only [hreads.valueRead, hreads.optionalFlag, isOptional] using h.present
    · simpa only [hreads.valueRead, hreads.valueNull, hreads.allowNullFlag, allowsNull]
        using h.notNull

theorem Getter.finish_hasError (getter : Getter T) (d : T) (chain : List (Constraint T)) :
    let r := getter.reading pf (p.jsonValue.members.lookup name) d
    ((getter.context pf p name d).finish chain).parser.hasError = true ↔
      p.hasError = true ∨ ¬ r.Accepted chain := by
  have h := (getter.finish_after pf p name d chain).noError
  dsimp only at h ⊢
  rw [← not_iff_not, Bool.not_eq_true, h, not_or, Bool.not_eq_true, not_not]

theorem Getter.finish_destination (getter : Getter T) (d : T) (chain : List (Constraint T)) :
    let r := getter.reading pf (p.jsonValue.members.lookup name) d
    ((getter.context pf p name d).finish chain).destination =
      if r.valueRead then r.destination else defaulted chain r.destination := by
  have hreads := getter.context_reads pf p name d
  dsimp only
  rw [JsonParseContext.finish_destination, hreads.valueRead, hreads.destination]

theorem Getter.finish_flags (getter : Getter T) (d : T) (chain : List (Constraint T)) :
    ((getter.context pf p name d).finish chain).flags =
      List.replicate (chain.countP Constraint.isFlag)
        (getter.reading pf (p.jsonValue.members.lookup name) d).valueRead := by
  rw [JsonParseContext.finish_flags, (getter.context_reads pf p name d).valueRead]

end

/-- Requests whose getters read alike leave the same, whatever the getters and the JSON. -/
theorem Getter.finish_congr (pf : Platform) (getter getter' : Getter T) {p p' : JsonParser}
    {name : String} {d : T}
    (hreading : getter.reading pf (p.jsonValue.members.lookup name) d =
      getter'.reading pf (p'.jsonValue.members.lookup name) d)
    (hfound : (p.jsonValue.members.lookup name).isSome =
      (p'.jsonValue.members.lookup name).isSome)
    (herror : p.hasError = p'.hasError) (hfields : p.numberOfFields = p'.numberOfFields)
    (chain : List (Constraint T)) :
    let r := (getter.context pf p name d).finish chain
    let r' := (getter'.context pf p' name d).finish chain
    r.destination = r'.destination ∧ r.flags = r'.flags ∧
      r.parser.hasError = r'.parser.hasError ∧
      r.parser.numberOfFields = r'.parser.numberOfFields := by
  dsimp only
  have hdest := getter.finish_destination pf p name d chain
  have hdest' := getter'.finish_destination pf p' name d chain
  have hleft := getter.finish_hasError pf p name d chain
  have hright := getter'.finish_hasError pf p' name d chain
  dsimp only at hdest hdest' hleft hright
  refine ⟨?_, ?_, ?_, ?_⟩
  · rw [hdest, hdest', hreading]
  · rw [getter.finish_flags, getter'.finish_flags, hreading]
  · rw [Bool.eq_iff_iff, hleft, hright, hreading, herror]
  · rw [(getter.finish_after pf p name d chain).numberOfFields,
      (getter'.finish_after pf p' name d chain).numberOfFields, hfields, counted, counted, hfound]

/-! ## Fields that are absent -/

section Absent

variable {Var : Type} [DecidableEq Var] {Ty : Var → Type} {v : Var}

/-- A modifier on a context that has read nothing: only a flag or the destination changes. -/
theorem Modifier.apply_unread (modifier : Modifier Ty (Ty v)) {c : JsonParseContext (Ty v)}
    (hread : c.valueRead = false) (m : Memory Ty) :
    ∃ d, (modifier.apply (c, m)).1 =
      { c with
        destination := d
        optionalFlag := modifier.constraint.optional?.getD c.optionalFlag
        allowNullFlag := modifier.constraint.allowNull?.getD c.allowNullFlag } := by
  rcases c with ⟨p, fieldName, d, valueRead, valueNull, isOptional, isAllowed⟩
  obtain rfl : valueRead = false := hread
  cases modifier with
  | optional | allowNull => exact ⟨d, rfl⟩
  | defaultValue value => exact ⟨value, rfl⟩
  | min value | max value => exact ⟨d, by simp [Modifier.apply, Modifier.constraint,
      Constraint.optional?, Constraint.allowNull?, JsonParseContext.min, JsonParseContext.max]⟩
  | allowedValues values => exact ⟨d, rfl⟩
  | checkValueRead flag =>
      by_cases h : flag.var = v
      · refine ⟨(JsonParseContext.storeFlag
          ⟨p, fieldName, d, false, valueNull, isOptional, isAllowed⟩ flag).destination, ?_⟩
        simp only [Modifier.apply, JsonParseContext.storeFlag, h, dif_pos]
        rfl
      · refine ⟨d, ?_⟩
        simp only [Modifier.apply, JsonParseContext.storeFlag, h, dif_neg, not_false_eq_true]
        rfl

/-- By induction on the chain. -/
theorem modifiers_unread (modifiers : List (Modifier Ty (Ty v))) {c : JsonParseContext (Ty v)}
    (hread : c.valueRead = false) (m : Memory Ty) :
    let s := modifiers.foldl (fun s modifier => modifier.apply s) (c, m)
    let chain := modifiers.map Modifier.constraint
    s.1.parser = c.parser ∧ s.1.valueRead = false ∧ s.1.valueNull = c.valueNull ∧
      s.1.optionalFlag = Transition.lastWrite Constraint.optional? c.optionalFlag chain ∧
      s.1.allowNullFlag = Transition.lastWrite Constraint.allowNull? c.allowNullFlag chain := by
  induction modifiers generalizing c m with
  | nil => exact ⟨rfl, hread, rfl, rfl, rfl⟩
  | cons modifier modifiers ih =>
      rcases modifier.apply_unread hread m with ⟨d, happly⟩
      have hparser : (modifier.apply (c, m)).1.parser = c.parser := by rw [happly]
      have hunread : (modifier.apply (c, m)).1.valueRead = false := by
        rw [happly]
        exact hread
      have hnull : (modifier.apply (c, m)).1.valueNull = c.valueNull := by rw [happly]
      have hoptional : (modifier.apply (c, m)).1.optionalFlag =
          modifier.constraint.optional?.getD c.optionalFlag := by rw [happly]
      have hallowed : (modifier.apply (c, m)).1.allowNullFlag =
          modifier.constraint.allowNull?.getD c.allowNullFlag := by rw [happly]
      have hrest := ih hunread (modifier.apply (c, m)).2
      dsimp only at hrest ⊢
      rw [hparser, hnull, hoptional, hallowed] at hrest
      exact hrest

theorem Getter.reading_none (pf : Platform) (getter : Getter T) (d : T) :
    getter.reading pf none d = .absent d := by
  cases getter <;> rfl

/-- A request on a field that is absent is refused unless its chain is optional. -/
theorem Request.run_absent (pf : Platform) (q : Request Ty) (p : JsonParser) (m : Memory Ty)
    (habsent : p.jsonValue.members.lookup q.name = none) :
    After p (q.run pf (p, m)).1 0 (isOptional (q.modifiers.map Modifier.constraint) = true) := by
  have hreads := q.getter.context_reads pf p q.name (m q.destination)
  dsimp only at hreads
  rw [habsent, q.getter.reading_none] at hreads
  have hunread := modifiers_unread q.modifiers hreads.valueRead m
  dsimp only at hunread
  rcases hunread with ⟨hparser, hread, hnull, hoptional, _⟩
  have hfinish := (q.modifiers.foldl (fun s modifier => modifier.apply s)
    (q.getter.context pf p q.name (m q.destination), m)).1.finishParse_after.1
  rw [hparser, hread, hnull, hoptional, hreads.valueNull, hreads.optionalFlag] at hfinish
  refine (hreads.parser.trans hfinish).congr rfl ?_
  simp [Reading.absent, isOptional]

end Absent

end LSHelpers
