import LSHelpers.Json.ErrorPath
import LSHelpers.Json.Numbers
import Mathlib.Data.List.Forall2
import Mathlib.Data.Option.Basic

/-!
# The order of members

Texts that list the members of their objects in different orders say the same. A parser asks
for its fields by name, so a decode goes the same way for them: it ends with the same error,
and its destination holds the same things, also where it has failed.
-/

namespace LSHelpers

/-- The same value, however the members of its objects are listed. -/
inductive Json.Same : Json → Json → Prop
  | null : Same .null .null
  | bool (b : Bool) : Same (.bool b) (.bool b)
  | number (q : Rat) : Same (.number q) (.number q)
  | string (s : String) : Same (.string s) (.string s)
  | array {xs ys : List Json} (h : List.Forall₂ Same xs ys) : Same (.array xs) (.array ys)
  | object {ms ns : List (String × Json)}
      (h : ∀ name, Option.Rel Same (ms.lookup name) (ns.lookup name)) :
      Same (.object ms) (.object ns)

theorem mem_of_lookup_eq_some {α : Type*} {ms : List (String × α)} {name : String} {x : α}
    (h : ms.lookup name = some x) : (name, x) ∈ ms := by
  induction ms with
  | nil => cases h
  | cons m ms ih =>
      rcases m with ⟨key, y⟩
      by_cases hkey : name = key
      · subst hkey
        simp_all
      · rw [List.lookup_cons, beq_false_of_ne hkey] at h
        exact List.mem_cons_of_mem _ (ih h)

theorem Json.Same.refl : (x : Json) → Json.Same x x
  | .null => .null
  | .bool b => .bool b
  | .number q => .number q
  | .string s => .string s
  | .array xs => .array (List.forall₂_same.mpr fun x _ => Json.Same.refl x)
  | .object ms => .object fun name =>
      match h : ms.lookup name with
      | none => .none
      | some x =>
          have hmem := List.sizeOf_lt_of_mem (mem_of_lookup_eq_some h)
          have hlt : sizeOf x < 1 + sizeOf ms := by simp only [Prod.mk.sizeOf_spec] at hmem; omega
          .some (Json.Same.refl x)

/-- Values of pbnjson that are the same but for the order of members. -/
inductive JValue.Same : JValue → JValue → Prop
  | invalid : Same .invalid .invalid
  | valid {x y : Json} (h : Json.Same x y) : Same (.valid x) (.valid y)

namespace JValue.Same

variable {v w : JValue}

theorem members (h : v.Same w) (name : String) :
    Option.Rel Json.Same (v.members.lookup name) (w.members.lookup name) := by
  cases h with
  | invalid => exact .none
  | valid h =>
      cases h with
      | object h => exact h name
      | null | bool _ | number _ | string _ | array _ => exact .none

theorem isNull (h : v.Same w) (pf : Platform) : v.isNull pf = w.isNull pf := by
  cases h with
  | invalid => rfl
  | valid h => cases h <;> rfl

theorem isObject (h : v.Same w) : v.isObject = w.isObject := by
  cases h with
  | invalid => rfl
  | valid h => cases h <;> rfl

theorem items (h : v.Same w) : Option.Rel (List.Forall₂ Json.Same) v.items w.items := by
  cases h with
  | invalid => exact .none
  | valid h =>
      cases h with
      | array h => exact .some h
      | null | bool _ | number _ | string _ | object _ => exact .none

theorem hasKey (h : v.Same w) (name : String) : v.hasKey name = w.hasKey name := by
  have hmembers := h.members name
  unfold JValue.hasKey
  cases hv : v.members.lookup name <;> cases hw : w.members.lookup name <;>
    simp [hv, hw] at hmembers ⊢

theorem field (h : v.Same w) (name : String) : (v.field name).Same (w.field name) := by
  have hmembers := h.members name
  unfold JValue.field
  generalize v.members.lookup name = x at hmembers
  generalize w.members.lookup name = y at hmembers
  cases hmembers with
  | none => exact .invalid
  | some h => exact .valid h

theorem objectSize (h : v.Same w) : v.objectSize = w.objectSize := by
  have hkeys (name : String) : name ∈ v.members.map Prod.fst ↔ name ∈ w.members.map Prod.fst := by
    rw [← lookup_isSome_iff, ← lookup_isSome_iff]
    exact iff_of_eq (congrArg (· = true) (h.hasKey name))
  refine List.Perm.length_eq ((List.perm_ext_iff_of_nodup (List.nodup_dedup _)
    (List.nodup_dedup _)).mpr fun name => ?_)
  rw [List.mem_dedup, List.mem_dedup, hkeys]

end JValue.Same

/-! ## What parsers and their contexts have in common -/

/-- Two parsers that have gone the same way so far. -/
structure JsonParser.Same (p q : JsonParser) : Prop where
  parseError : p.parseError = q.parseError
  numberOfFields : p.numberOfFields = q.numberOfFields
  jsonValue : p.jsonValue.Same q.jsonValue

/-- Two contexts of such parsers, with destinations that `R` relates. -/
structure JsonParseContext.Same {T : Type} (R : T → T → Prop) (c e : JsonParseContext T) :
    Prop where
  parser : c.parser.Same e.parser
  fieldName : c.fieldName = e.fieldName
  destination : R c.destination e.destination
  valueRead : c.valueRead = e.valueRead
  valueNull : c.valueNull = e.valueNull
  optionalFlag : c.optionalFlag = e.optionalFlag
  allowNullFlag : c.allowNullFlag = e.allowNullFlag

/-- The parse function does the same with the same values. -/
def ParserFunc.Respects {T : Type} (R : T → T → Prop) (parserFunc : ParserFunc T) : Prop :=
  ∀ v w d e, v.Same w → R d e →
    (parserFunc v d).1 = (parserFunc w e).1 ∧ R (parserFunc v d).2 (parserFunc w e).2

namespace JsonParser.Same

variable {p q : JsonParser}

theorem recordError (h : p.Same q) (fieldName message : String) :
    (p.recordError fieldName message).Same (q.recordError fieldName message) := by
  unfold JsonParser.recordError
  rw [h.parseError]
  split
  · exact ⟨rfl, h.numberOfFields, h.jsonValue⟩
  · exact h

theorem countField (h : p.Same q) : p.countField.Same q.countField :=
  ⟨h.parseError, congrArg (· + 1) h.numberOfFields, h.jsonValue⟩

theorem ofJson {v w : JValue} (h : v.Same w) : (JsonParser.ofJson v).Same (.ofJson w) := by
  refine ⟨?_, rfl, h⟩
  cases h <;> rfl

theorem finishParse (h : p.Same q) (strict : Bool) :
    (p.finishParse strict).1.Same (q.finishParse strict).1 := by
  unfold JsonParser.finishParse
  dsimp only
  rw [h.numberOfFields, h.jsonValue.objectSize]
  split
  · exact h.recordError _ _
  · exact h

theorem hasError (h : p.Same q) : p.hasError = q.hasError :=
  congrArg (· != "") h.parseError

theorem finishParseOrThrow (h : p.Same q) (pf : Platform) (strict : Bool) :
    (p.finishParseOrThrow pf strict).2 = (q.finishParseOrThrow pf strict).2 := by
  have hfinish := h.finishParse strict
  unfold JsonParser.finishParseOrThrow
  dsimp only
  rw [hfinish.hasError, hfinish.parseError]

end JsonParser.Same

namespace JsonParseContext.Same

variable {T : Type} {R : T → T → Prop} {c e : JsonParseContext T}

theorem optional (h : c.Same R e) (isOptional : Bool) :
    (c.optional isOptional).Same R (e.optional isOptional) := { h with optionalFlag := rfl }

theorem allowNull (h : c.Same R e) (allowNull : Bool) :
    (c.allowNull allowNull).Same R (e.allowNull allowNull) := { h with allowNullFlag := rfl }

theorem finishParse (h : c.Same R e) :
    c.finishParse.1.Same e.finishParse.1 ∧ R c.finishParse.2 e.finishParse.2 := by
  unfold JsonParseContext.finishParse
  rw [h.valueRead, h.valueNull, h.optionalFlag, h.allowNullFlag, h.fieldName]
  split_ifs
  · exact ⟨h.parser.recordError _ _, h.destination⟩
  · exact ⟨h.parser.recordError _ _, h.destination⟩
  · exact ⟨h.parser, h.destination⟩
  · exact ⟨h.parser, h.destination⟩

end JsonParseContext.Same

namespace JsonParser.Same

variable {T : Type} {R : T → T → Prop} {p q : JsonParser} {parserFunc : ParserFunc T}

theorem getImpl (h : p.Same q) (pf : Platform) (hfunc : parserFunc.Respects R) (name : String)
    {v w : JValue} (hvalue : v.Same w) (hasKey : Bool) {d e : T} (hdest : R d e) :
    (p.getImpl pf name v hasKey d parserFunc).Same R (q.getImpl pf name w hasKey e parserFunc) := by
  have hcall := hfunc v w d e hvalue hdest
  unfold JsonParser.getImpl
  dsimp only
  rw [hvalue.isNull pf]
  split
  · exact ⟨h, rfl, hdest, rfl, rfl, rfl, rfl⟩
  · generalize parserFunc v d = r at hcall
    generalize parserFunc w e = r' at hcall
    rcases r with ⟨result, d'⟩
    rcases r' with ⟨_, e'⟩
    rcases hcall with ⟨rfl, hstored⟩
    cases result with
    | ok _ => exact ⟨h, rfl, hstored, rfl, rfl, rfl, rfl⟩
    | error _ => exact ⟨h.recordError _ _, rfl, hstored, rfl, rfl, rfl, rfl⟩

theorem get (h : p.Same q) (pf : Platform) (hfunc : parserFunc.Respects R) (name : String)
    {d e : T} (hdest : R d e) :
    (p.get pf name d parserFunc).Same R (q.get pf name e parserFunc) := by
  unfold JsonParser.get
  dsimp only
  rw [h.jsonValue.hasKey name]
  split
  · exact h.countField.getImpl pf hfunc name (h.jsonValue.field name) _ hdest
  · exact h.getImpl pf hfunc name (.valid .null) _ hdest

theorem getItems (pf : Platform) {parserFunc : ParserFunc T} (hfunc : parserFunc.Respects Eq)
    (name : String) (fresh : T) {xs ys : List Json} (hitems : List.Forall₂ Json.Same xs ys)
    {p q : JsonParser} (h : p.Same q) (done : List T) :
    (JsonParser.getItems pf name fresh parserFunc xs (p, done)).1.Same
        (JsonParser.getItems pf name fresh parserFunc ys (q, done)).1 ∧
      (JsonParser.getItems pf name fresh parserFunc xs (p, done)).2 =
        (JsonParser.getItems pf name fresh parserFunc ys (q, done)).2 := by
  induction hitems generalizing p q done with
  | nil => exact ⟨h, rfl⟩
  | cons hitem _ ih =>
      rcases (h.getImpl pf hfunc name (.valid hitem) true rfl).finishParse with ⟨hparser, hdest⟩
      unfold JsonParser.getItems
      dsimp only
      rw [hdest]
      exact ih hparser _

theorem getArray (h : p.Same q) (pf : Platform) (hfunc : parserFunc.Respects Eq) (name : String)
    (destination : List T) (fresh : T) :
    (p.getArray pf name destination fresh parserFunc).Same Eq
      (q.getArray pf name destination fresh parserFunc) := by
  have hcopies : ParserFunc.Respects JValue.Same parseValueJValue :=
    fun _ _ _ _ hvalue _ => ⟨rfl, hvalue⟩
  have hfield := (h.get pf hcopies name (.valid .null)).optional true
  rcases hfield.finishParse with ⟨hparser, harray⟩
  unfold JsonParser.getArray
  dsimp only [JsonParseContext.checkValueRead]
  rw [hfield.valueRead, harray.isNull pf]
  split
  · split
    · have hitems := harray.items
      generalize JValue.items _ = xs at hitems
      generalize JValue.items _ = ys at hitems
      cases hitems with
      | none => exact ⟨hparser.recordError _ _, rfl, rfl, rfl, rfl, rfl, rfl⟩
      | some hitems =>
          rcases JsonParser.Same.getItems pf hfunc name fresh hitems hparser [] with ⟨hlast, hdest⟩
          exact ⟨hlast, rfl, hdest, rfl, rfl, rfl, rfl⟩
    · exact ⟨hparser, rfl, rfl, rfl, rfl, rfl, rfl⟩
  · exact ⟨hparser, rfl, rfl, rfl, rfl, rfl, rfl⟩

end JsonParser.Same

/-! ## The induction over the schema -/

mutual

/-- The leaves are read alike from the same values. -/
def Item.Stable : Item → Prop
  | .leaf _ _ parse => ∀ v w : JValue, v.Same w → parse v = parse w
  | .object fields _ => fields.Stable

def Fields.Stable : Fields → Prop
  | .nil => True
  | .item _ schema _ _ rest => schema.Stable ∧ rest.Stable
  | .array _ element _ rest => element.Stable ∧ rest.Stable

end

mutual

theorem Item.parserFunc_same (pf : Platform) (s : Item) (hs : s.Stable) :
    (s.parserFunc pf).Respects Eq := by
  intro v w d e hvalue hdest
  subst hdest
  cases s with
  | leaf T fresh parse =>
      unfold Item.parserFunc
      rw [hs v w hvalue]
      exact ⟨rfl, rfl⟩
  | object fields strict =>
      rcases Fields.request_same pf fields hs (JsonParser.Same.ofJson hvalue) d with
        ⟨hparser, hdest⟩
      unfold Item.parserFunc JsonParser.parseValueJsonDataObject
      dsimp only
      rw [hvalue.isObject]
      split
      · exact ⟨rfl, rfl⟩
      · exact ⟨hparser.finishParseOrThrow pf strict, hdest⟩

theorem Fields.request_same (pf : Platform) (fs : Fields) (hfs : fs.Stable) {p q : JsonParser}
    (h : p.Same q) (d : fs.Dest) :
    (fs.request pf p d).1.Same (fs.request pf q d).1 ∧
      (fs.request pf p d).2 = (fs.request pf q d).2 := by
  cases fs with
  | nil => exact ⟨h, rfl⟩
  | item name schema optional allowNull rest =>
      have hitem := Item.parserFunc_same pf schema hfs.1
      rcases (((h.get pf hitem name rfl).optional optional).allowNull allowNull).finishParse with
        ⟨hparser, hdest⟩
      rcases Fields.request_same pf rest hfs.2 hparser d.2 with ⟨hparsers, hdests⟩
      exact ⟨hparsers, Prod.ext hdest hdests⟩
  | array name element optional rest =>
      have hitem := Item.parserFunc_same pf element hfs.1
      rcases ((h.getArray pf hitem name d.1 element.fresh).optional optional).finishParse with
        ⟨hparser, hdest⟩
      rcases Fields.request_same pf rest hfs.2 hparser d.2 with ⟨hparsers, hdests⟩
      exact ⟨hparsers, Prod.ext hdest hdests⟩

end

/-- A scalar of the library as an item. -/
def Scalar.item (pf : Platform) (pb : Conversions) (t : Scalar) (fresh : t.type) : Item :=
  .leaf t.type fresh fun v =>
    match t.parseValue pf pb v fresh with
    | (.ok (), x) => .ok x
    | (.error e, _) => .error e

end LSHelpers
