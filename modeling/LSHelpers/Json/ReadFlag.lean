import LSHelpers.Json.Numbers
import LSHelpers.Json.Order

/-!
# The read flag

`checkValueRead` is meant to say that the destination holds the whole field, and
`defaultValue` is stored where it says that it does not. `getArray` sets its flag
before it looks at the field, and `getFromString` may hand an invalid value to a
parse function that takes it.
-/

namespace LSHelpers

open Transition

variable {T : Type} (pf : Platform)

/-- The whole field is decoded without an error, and `d'` is what is in it; there is no other
such value (`Getter.Decodes.unique`). -/
def Getter.Decodes (getter : Getter T) (field : Option Json) (d d' : T) : Prop :=
  match getter with
  | .get parserFunc => LSHelpers.Decodes parserFunc field d d'
  | .getFromString parserFunc =>
      ∃ s x, field = some (.string s) ∧ pf.fromString s pf.allSchema = .valid x ∧
        LSHelpers.Decodes parserFunc (some x) d d'
  | .getAndMap intermediateValue parserFunc find =>
      ∃ i, LSHelpers.Decodes parserFunc field intermediateValue i ∧ find i = some d'
  | .getArray fresh parserFunc =>
      ∃ xs, field = some (.array xs) ∧
        List.Forall₂ (fun x t => LSHelpers.Decodes parserFunc (some x) fresh t) xs d'

/-- The fields a getter reports as read though they are not decoded: for `getArray` what is
no array and an array with an element that is null or does not parse, for `getFromString`
a text that is no JSON, where the invalid value is not null and the parse function takes it. -/
def Getter.Misread (getter : Getter T) (field : Option Json) (d : T) : Prop :=
  match getter with
  | .get _ | .getAndMap _ _ _ => False
  | .getFromString parserFunc =>
      ∃ s, field = some (.string s) ∧ pf.fromString s pf.allSchema = .invalid ∧
        pf.isNullOfInvalid = false ∧ (parserFunc .invalid d).1 = .ok ()
  | .getArray fresh parserFunc =>
      ∃ x, field = some x ∧ x ≠ .null ∧ ∀ xs, x = .array xs →
        ∃ y ∈ xs, y = .null ∨ (parserFunc (.valid y) fresh).1 ≠ .ok ()

section Readings

theorem Reading.ofValue_invalid_valueRead (d : T) (parserFunc : ParserFunc T) :
    (Reading.ofValue pf .invalid d parserFunc).valueRead = true ↔
      pf.isNullOfInvalid = false ∧ (parserFunc .invalid d).1 = .ok () := by
  unfold Reading.ofValue
  cases hnull : pf.isNullOfInvalid with
  | true => simp [JValue.isNull, hnull, Reading.null]
  | false =>
      rcases hparse : parserFunc .invalid d with ⟨e | u, d'⟩
      · simp [JValue.isNull, hnull, Reading.failure]
      · simp [JValue.isNull, hnull, Reading.value]

/-- A value that is decoded is read. -/
theorem Reading.ofValue_of_decodes {x : Json} {d d' : T} {parserFunc : ParserFunc T}
    (h : LSHelpers.Decodes parserFunc (some x) d d') :
    Reading.ofValue pf (.valid x) d parserFunc = .value d' :=
  reading_of_decodes pf parserFunc h

theorem Reading.ofValue_decodes {x : Json} {d : T} {parserFunc : ParserFunc T}
    (h : (Reading.ofValue pf (.valid x) d parserFunc).valueRead = true) :
    ∃ d', LSHelpers.Decodes parserFunc (some x) d d' :=
  (get_reading_valueRead pf parserFunc (some x) d).mp h

/-- By induction on the elements. -/
theorem Reading.elements_of_decodes {fresh : T} {parserFunc : ParserFunc T} {xs : List Json}
    {ts : List T}
    (h : List.Forall₂ (fun x t => LSHelpers.Decodes parserFunc (some x) fresh t) xs ts) :
    Reading.elements (xs.map fun x => .ofValue pf (.valid x) fresh parserFunc) = .value ts := by
  induction h with
  | nil => rfl
  | cons hx _ ih =>
      simp only [Reading.elements, Reading.value, Reading.mk.injEq, List.map_cons,
        List.any_cons] at ih ⊢
      rw [Reading.ofValue_of_decodes pf hx, ih.1, ih.2.2.2]
      simp [Reading.value]

/-- A field that is decoded is read, and the destination has what is in it. -/
theorem Getter.reading_of_decodes {getter : Getter T} {field : Option Json} {d d' : T}
    (h : getter.Decodes pf field d d') : getter.reading pf field d = .value d' := by
  cases getter with
  | get parserFunc => exact LSHelpers.reading_of_decodes pf parserFunc h
  | getFromString parserFunc =>
      rcases h with ⟨s, x, rfl, hvalid, hdecodes⟩
      simp only [reading, hvalid, Reading.ofValue_of_decodes pf hdecodes]
  | getAndMap intermediateValue parserFunc find =>
      rcases h with ⟨i, hdecodes, hfind⟩
      rcases id hdecodes with ⟨x, rfl, _⟩
      simp only [reading, Reading.ofValue_of_decodes pf hdecodes, Reading.mapped, Reading.value,
        hfind, if_true]
  | getArray fresh parserFunc =>
      rcases h with ⟨xs, rfl, hall⟩
      exact Reading.elements_of_decodes pf hall

theorem Getter.Decodes.unique {getter : Getter T} {field : Option Json} {d a b : T}
    (ha : getter.Decodes pf field d a) (hb : getter.Decodes pf field d b) : a = b := by
  have h := (getter.reading_of_decodes pf ha).symm.trans (getter.reading_of_decodes pf hb)
  exact congrArg Reading.destination h

/-- By induction on the elements. -/
theorem exists_decodes_elements {fresh : T} {parserFunc : ParserFunc T} {xs : List Json}
    (h : ∀ x ∈ xs, ∃ t, LSHelpers.Decodes parserFunc (some x) fresh t) :
    ∃ ts, List.Forall₂ (fun x t => LSHelpers.Decodes parserFunc (some x) fresh t) xs ts := by
  induction xs with
  | nil => exact ⟨[], .nil⟩
  | cons x xs ih =>
      rcases h x List.mem_cons_self with ⟨t, ht⟩
      rcases ih fun y hy => h y (List.mem_cons_of_mem x hy) with ⟨ts, hts⟩
      exact ⟨t :: ts, .cons ht hts⟩

/-- A field that is read is decoded, unless the getter misreads it. -/
theorem Getter.decodes_of_valueRead {getter : Getter T} {field : Option Json} {d : T}
    (h : (getter.reading pf field d).valueRead = true) :
    (∃ d', getter.Decodes pf field d d') ∨ getter.Misread pf field d := by
  cases field with
  | none =>
      rw [getter.reading_none] at h
      cases h
  | some x =>
      cases getter with
      | get parserFunc => exact .inl (Reading.ofValue_decodes pf h)
      | getAndMap intermediateValue parserFunc find =>
          have hmapped : ((Reading.ofValue pf (.valid x) intermediateValue parserFunc).mapped find
              d).valueRead = true := h
          cases hread : (Reading.ofValue pf (.valid x) intermediateValue parserFunc).valueRead with
          | false => simp [Reading.mapped, hread, Reading.failure] at hmapped
          | true =>
              rcases Reading.ofValue_decodes pf hread with ⟨i, hi⟩
              rw [Reading.ofValue_of_decodes pf hi] at hmapped
              cases hfind : find i with
              | none => simp [Reading.mapped, Reading.value, hfind, Reading.failure] at hmapped
              | some d' => exact .inl ⟨d', i, hi, hfind⟩
      | getFromString parserFunc =>
          cases x with
          | string s =>
              cases hv : pf.fromString s pf.allSchema with
              | invalid =>
                  simp only [reading, hv] at h
                  exact .inr ⟨s, rfl, hv, (Reading.ofValue_invalid_valueRead pf d parserFunc).mp h⟩
              | valid v =>
                  simp only [reading, hv] at h
                  rcases Reading.ofValue_decodes pf h with ⟨d', hd'⟩
                  exact .inl ⟨d', s, v, rfl, hv, hd'⟩
          | null | bool | number | array | object => cases h
      | getArray fresh parserFunc =>
          cases x with
          | array xs =>
              by_cases hall : ∀ x ∈ xs, ∃ t, LSHelpers.Decodes parserFunc (some x) fresh t
              · rcases exists_decodes_elements hall with ⟨ts, hts⟩
                exact .inl ⟨ts, xs, rfl, hts⟩
              · right
                refine ⟨.array xs, rfl, by simp, ?_⟩
                intro ys hys
                obtain rfl := Json.array.inj hys
                rw [not_forall] at hall
                rcases hall with ⟨y, hy⟩
                rw [Classical.not_imp] at hy
                refine ⟨y, hy.1, ?_⟩
                by_contra hnone
                rw [not_or, not_not] at hnone
                exact hy.2 ⟨(parserFunc (.valid y) fresh).2, y, rfl, hnone.1,
                  Prod.ext hnone.2 rfl⟩
          | null => cases h
          | bool | number | string | object => exact .inr ⟨_, rfl, by simp, by simp⟩

/-- What is misread counts as read, and is not decoded. -/
theorem Getter.Misread.reading {getter : Getter T} {field : Option Json} {d : T}
    (h : getter.Misread pf field d) :
    (getter.reading pf field d).valueRead = true ∧ ¬ ∃ d', getter.Decodes pf field d d' := by
  cases getter with
  | get | getAndMap => exact h.elim
  | getFromString parserFunc =>
      rcases h with ⟨s, rfl, hinvalid, hread⟩
      constructor
      · simp only [Getter.reading, hinvalid]
        exact (Reading.ofValue_invalid_valueRead pf d parserFunc).mpr hread
      · intro hdecodes
        rcases hdecodes with ⟨d', s', x, hfield, hvalid, _⟩
        obtain rfl : s = s' := by simpa using hfield
        simp [hinvalid] at hvalid
  | getArray fresh parserFunc =>
      rcases h with ⟨x, rfl, hx, hfails⟩
      constructor
      · cases x with
        | null => exact absurd rfl hx
        | bool | number | string | array | object => rfl
      · intro hdecodes
        rcases hdecodes with ⟨ts, xs, hfield, hall⟩
        obtain rfl : x = .array xs := by simpa using hfield
        rcases hfails xs rfl with ⟨y, hy, hwrong⟩
        rcases List.forall₂_iff_get.mp hall with ⟨hlen, hget⟩
        rcases List.get_of_mem hy with ⟨i, rfl⟩
        rcases hget i i.isLt (hlen ▸ i.isLt) with ⟨z, hz, hnull, hparse⟩
        obtain rfl := Option.some.inj hz
        rcases hwrong with hwrong | hwrong
        · exact hnull hwrong
        · exact hwrong (congrArg Prod.fst hparse)

end Readings

section

variable (getter : Getter T) (p : JsonParser) (name : String) (d : T)
  (chain : List (Constraint T))

/-- The flag says whether the field is decoded, as it is told to every `checkValueRead` of the
chain. The destination has what was decoded, and the last default of the chain where nothing
was. -/
structure ReadFlagTold : Prop where
  flag : ((getter.context pf p name d).chained chain).1.checkValueRead = true ↔
    ∃ d', getter.Decodes pf (p.jsonValue.members.lookup name) d d'
  flagCount : ((getter.context pf p name d).finish chain).flags.length =
    chain.countP Constraint.isFlag
  flags : ∀ flag ∈ ((getter.context pf p name d).finish chain).flags,
    flag = true ↔ ∃ d', getter.Decodes pf (p.jsonValue.members.lookup name) d d'
  decoded : ∀ d', getter.Decodes pf (p.jsonValue.members.lookup name) d d' →
    ((getter.context pf p name d).finish chain).destination = d'
  default : (¬ ∃ d', getter.Decodes pf (p.jsonValue.members.lookup name) d d') →
    ∀ value, (chain.filterMap Constraint.default?).getLast? = some value →
      ((getter.context pf p name d).finish chain).destination = value

/-- The flag can be relied on exactly when the field is not one the getter misreads. -/
theorem readFlagTold_iff :
    ReadFlagTold pf getter p name d chain ↔
      ¬ getter.Misread pf (p.jsonValue.members.lookup name) d := by
  have hread : ((getter.context pf p name d).chained chain).1.checkValueRead =
      (getter.reading pf (p.jsonValue.members.lookup name) d).valueRead := by
    rw [JsonParseContext.checkValueRead,
      ((getter.context pf p name d).chained_spec chain).valueRead,
      (getter.context_reads pf p name d).valueRead]
  have hflags := getter.finish_flags pf p name d chain
  have hdest := getter.finish_destination pf p name d chain
  dsimp only at hdest
  constructor
  · intro h hmisread
    rcases hmisread.reading with ⟨hvalue, hnot⟩
    exact hnot (h.flag.mp (hread.trans hvalue))
  · intro hnot
    have htold : (getter.reading pf (p.jsonValue.members.lookup name) d).valueRead = true ↔
        ∃ d', getter.Decodes pf (p.jsonValue.members.lookup name) d d' := by
      constructor
      · exact fun h => (Getter.decodes_of_valueRead pf h).resolve_right hnot
      · intro h
        rcases h with ⟨d', hd'⟩
        rw [Getter.reading_of_decodes pf hd']
        rfl
    refine ⟨by rw [hread, htold], by rw [hflags, List.length_replicate], ?_, ?_, ?_⟩
    · intro flag hmem
      rw [hflags] at hmem
      rw [List.eq_of_mem_replicate hmem, htold]
    · intro d' hd'
      rw [hdest, Getter.reading_of_decodes pf hd']
      rfl
    · intro hnone value hvalue
      rw [← htold, Bool.not_eq_true] at hnone
      rw [hdest, hnone, if_neg Bool.false_ne_true, defaulted, lastWrite_eq_getLast?, hvalue,
        Option.getD_some]

end

/-- A `vector<int32_t>` from an array whose second element is refused, and from what is no
array: the default is not stored. -/
theorem getArray_misread :
    let getter : Getter (List Int32) :=
      .getArray 0 (parseValueInt32 .ofEmptyObject (.clamping fun _ => none))
    let elements : JsonParser :=
      .ofJson (.valid (.object [("a", .array [.number 1, .string "x"])]))
    let scalar : JsonParser := .ofJson (.valid (.object [("a", .bool true)]))
    let chain : List (Constraint (List Int32)) :=
      [.optional true, .defaultValue [7], .checkValueRead]
    ¬ ReadFlagTold .ofEmptyObject getter elements "a" [] chain ∧
      ¬ ReadFlagTold .ofEmptyObject getter scalar "a" [] chain ∧
      ((getter.context .ofEmptyObject scalar "a" []).finish chain).flags = [true] ∧
      ((getter.context .ofEmptyObject scalar "a" []).finish chain).destination = [] := by
  refine ⟨?_, ?_, rfl, rfl⟩
  · intro h
    rcases h.flag.mp rfl with ⟨ts, xs, hxs, hall⟩
    obtain rfl : [.number 1, .string "x"] = xs := by simpa using hxs
    cases hall with
    | cons _ hrest =>
        cases hrest with
        | cons hx _ =>
            rcases hx with ⟨x, hx, _, hparse⟩
            obtain rfl := Option.some.inj hx
            cases congrArg Prod.fst hparse
  · intro h
    rcases h.flag.mp rfl with ⟨ts, xs, hxs, _⟩
    simp at hxs

end LSHelpers
