import LSHelpers.Json.Reading

/-!
# Fields that hold JSON text

`getFromString` reads a string and parses its text, and what it makes of the value is
what `get` makes of the same value in the string's place. A text that is no JSON gives
the invalid value, which the common implementation takes for null or hands to the parse
function, according to what `isNull` says of it.
-/

namespace LSHelpers

variable {T : Type}

/-- The members with the value of one key replaced. -/
def replaceField (name : String) (x : Json) (members : List (String × Json)) :
    List (String × Json) :=
  members.map fun member => if member.1 = name then (name, x) else member

theorem lookup_replaceField {name : String} (members : List (String × Json))
    (h : (members.lookup name).isSome = true) (x : Json) :
    (replaceField name x members).lookup name = some x := by
  induction members with
  | nil => simp at h
  | cons member members ih =>
      rcases member with ⟨key, y⟩
      by_cases hkey : key = name
      · simp [replaceField, hkey]
      · have hne : (name == key) = false := by simpa using Ne.symm hkey
        rw [List.lookup_cons, hne] at h
        have hrest := ih h
        simpa [replaceField, hkey, List.lookup_cons, hne] using hrest

section

variable (pf : Platform) (parserFunc : ParserFunc T) (p : JsonParser)
  (members : List (String × Json)) (name s : String) (d : T) (chain : List (Constraint T))

/-- What is asked of a field with the text `s`: the same as `get` leaves with the value of
the text in its place, or an error where the text is no JSON. -/
def FromStringLaw : Prop :=
  let r := (p.getFromString pf name d parserFunc).finish chain
  match pf.fromString s pf.allSchema with
  | .valid x =>
      let p' := { p with jsonValue := .valid (.object (replaceField name x members)) }
      let r' := (p'.get pf name d parserFunc).finish chain
      r.destination = r'.destination ∧ r.flags = r'.flags ∧
        r.parser.hasError = r'.parser.hasError ∧
        r.parser.numberOfFields = r'.parser.numberOfFields
  | .invalid => r.parser.hasError = true

/-- The text is JSON, or the modifiers refuse the null it is taken for, or the parse function
or a check refuses the invalid value. -/
def TextDetected : Prop :=
  match pf.fromString s pf.allSchema with
  | .valid _ => True
  | .invalid =>
      if pf.isNullOfInvalid then ¬ (isOptional chain = true ∧ allowsNull chain = true)
      else (parserFunc .invalid d).1 ≠ .ok () ∨
        ∃ k ∈ chain, k.refuses (parserFunc .invalid d).2 = true

theorem reading_invalid_accepted :
    (Reading.ofValue pf .invalid d parserFunc).Accepted chain ↔
      if pf.isNullOfInvalid then isOptional chain = true ∧ allowsNull chain = true
      else (parserFunc .invalid d).1 = .ok () ∧
        ∀ k ∈ chain, k.refuses (parserFunc .invalid d).2 = false := by
  cases hnull : pf.isNullOfInvalid with
  | true =>
      have hr : Reading.ofValue pf .invalid d parserFunc = .null d := by
        simp [Reading.ofValue, JValue.isNull, hnull]
      rw [hr, if_pos rfl]
      constructor
      · exact fun h => ⟨h.present rfl, h.notNull rfl rfl⟩
      · exact fun h => ⟨rfl, by simp [Reading.null], fun _ => h.1, fun _ _ => h.2⟩
  | false =>
      rw [if_neg Bool.false_ne_true]
      rcases hparse : parserFunc .invalid d with ⟨e | u, d'⟩
      · have hr : Reading.ofValue pf .invalid d parserFunc = .failure d' := by
          simp [Reading.ofValue, JValue.isNull, hnull, hparse]
        rw [hr]
        constructor
        · exact fun h => absurd h.noError (by simp [Reading.failure])
        · exact fun h => absurd h.1 (by simp)
      · have hr : Reading.ofValue pf .invalid d parserFunc = .value d' := by
          simp [Reading.ofValue, JValue.isNull, hnull, hparse]
        rw [hr]
        constructor
        · exact fun h => ⟨rfl, h.value rfl⟩
        · exact fun h => ⟨rfl, fun _ => h.2, by simp [Reading.value], by simp [Reading.value]⟩

/-- The law holds of a field with the text `s` exactly when a text that is no JSON is
detected. -/
theorem fromStringLaw_iff (hclean : p.hasError = false)
    (hobject : p.jsonValue = .valid (.object members))
    (hfield : members.lookup name = some (.string s)) :
    FromStringLaw pf parserFunc p members name s d chain ↔
      TextDetected pf parserFunc s d chain := by
  have hlookup : p.jsonValue.members.lookup name = some (.string s) := by
    rw [hobject]
    exact hfield
  have hreading : (Getter.getFromString parserFunc).reading pf (some (.string s)) d =
      .ofValue pf (pf.fromString s pf.allSchema) d parserFunc := rfl
  unfold FromStringLaw TextDetected
  dsimp only
  cases htext : pf.fromString s pf.allSchema with
  | valid x =>
      have hlookup' := lookup_replaceField members (by rw [hfield]; rfl) x
      refine iff_of_true ?_ trivial
      apply Getter.finish_congr pf (.getFromString parserFunc) (.get parserFunc)
      · rw [hlookup, hreading, htext]
        exact congrArg (fun field => (Getter.get parserFunc).reading pf field d) hlookup'.symm
      · rw [hlookup]
        show true = ((replaceField name x members).lookup name).isSome
        rw [hlookup']
        rfl
      · rfl
      · rfl
  | invalid =>
      have herror := (Getter.getFromString parserFunc).finish_hasError pf p name d chain
      dsimp only [Getter.context] at herror ⊢
      rw [hlookup, hreading, htext, hclean, reading_invalid_accepted] at herror
      rw [herror]
      cases pf.isNullOfInvalid with
      | true => simp
      | false => simp [imp_iff_not_or]

end

/-- The text `{` is no JSON: where the invalid value counts as null, an optional field that
may be null hides it; where it does not, a field of any JSON type takes it. -/
theorem fromString_malformed :
    ¬ FromStringLaw .ofEmptyObject (JsonParser.parseValueBool .ofEmptyObject)
      (.ofJson (.valid (.object [("a", .string "\x7b")]))) [("a", .string "\x7b")] "a" "\x7b" false
      [.optional true, .allowNull true] ∧
    ¬ FromStringLaw { Platform.ofEmptyObject with isNullOfInvalid := false }
      JsonParser.parseValueJValue (.ofJson (.valid (.object [("a", .string "\x7b")])))
      [("a", .string "\x7b")] "a" "\x7b" .invalid [] := by
  constructor
  · intro h
    have herror : (JsonParser.ofJson (.valid (.object [("a", .string "\x7b")])) |>.getFromString
        .ofEmptyObject "a" false (JsonParser.parseValueBool .ofEmptyObject) |>.finish
          [.optional true, .allowNull true]).parser.hasError = true := h
    exact absurd herror (by decide)
  · intro h
    have herror : (JsonParser.ofJson (.valid (.object [("a", .string "\x7b")])) |>.getFromString
        { Platform.ofEmptyObject with isNullOfInvalid := false } "a" .invalid
          JsonParser.parseValueJValue |>.finish []).parser.hasError = true := h
    exact absurd herror (by decide)

/-- A text that is JSON. -/
theorem fromString_object :
    FromStringLaw .ofEmptyObject JsonParser.parseValueJValue
      (.ofJson (.valid (.object [("a", .string "\x7b\x7d")]))) [("a", .string "\x7b\x7d")] "a"
      "\x7b\x7d" .invalid [.checkValueRead] :=
  (fromStringLaw_iff .ofEmptyObject JsonParser.parseValueJValue
    (.ofJson (.valid (.object [("a", .string "\x7b\x7d")]))) [("a", .string "\x7b\x7d")] "a"
    "\x7b\x7d" .invalid [.checkValueRead] rfl rfl rfl).mpr trivial

end LSHelpers
