import LSHelpers.Json.Schema
import Mathlib.Data.Finset.Card

/-!
# Decoding with the parser accepts what conforms

The two directions are one induction over the schema, with the count of fields
found carried along: it is what the strict check compares with the size of the
object.
-/

namespace LSHelpers

/-! ## Counting fields against keys -/

theorem lookup_isSome_iff (ms : List (String × Json)) (name : String) :
    (ms.lookup name).isSome = true ↔ name ∈ ms.map Prod.fst := by
  induction ms with
  | nil => simp
  | cons m ms ih =>
      rcases m with ⟨key, x⟩
      by_cases h : name = key
      · subst h
        simp
      · simp [List.lookup_cons, beq_false_of_ne h, ih, h]

/-- Differently named requests find as many fields as the object has keys exactly
when they name every key. -/
theorem countP_eq_objectSize_iff (names : List String) (hnames : names.Nodup)
    (ms : List (String × Json)) :
    names.countP (fun name => (ms.lookup name).isSome) =
        (JValue.valid (.object ms)).objectSize ↔
      ∀ key ∈ ms.map Prod.fst, key ∈ names := by
  let found := names.filter fun name => (ms.lookup name).isSome
  have hmem : ∀ name, name ∈ found ↔ name ∈ names ∧ name ∈ ms.map Prod.fst := by
    intro name
    rw [List.mem_filter, lookup_isSome_iff]
  have hcount : names.countP (fun name => (ms.lookup name).isSome) = found.toFinset.card := by
    rw [List.countP_eq_length_filter, List.toFinset_card_of_nodup (hnames.filter _)]
  have hsize : (JValue.valid (.object ms)).objectSize = (ms.map Prod.fst).toFinset.card :=
    (List.card_toFinset _).symm
  have hsub : found.toFinset ⊆ (ms.map Prod.fst).toFinset := by
    intro name hname
    exact List.mem_toFinset.mpr ((hmem name).mp (List.mem_toFinset.mp hname)).2
  rw [hcount, hsize]
  constructor
  · intro hcard key hkey
    have heq := Finset.eq_of_subset_of_card_le hsub (le_of_eq hcard.symm)
    have hfound : key ∈ found.toFinset := by
      rw [heq]
      exact List.mem_toFinset.mpr hkey
    exact ((hmem key).mp (List.mem_toFinset.mp hfound)).1
  · intro hall
    congr 1
    refine Finset.Subset.antisymm hsub ?_
    intro key hkey
    have hkey' := List.mem_toFinset.mp hkey
    exact List.mem_toFinset.mpr ((hmem key).mpr ⟨hall key hkey', hkey'⟩)

/-! ## The induction over the schema -/

mutual

theorem Item.parserFunc_spec (pf : Platform) (s : Item) (hs : s.Distinct) (x : Json)
    (d : s.Dest) :
    ((s.parserFunc pf (.valid x) d).1 = .ok () ↔ s.Conforms x) ∧
      (s.Conforms x → (s.parserFunc pf (.valid x) d).2 = s.decoded x d) := by
  cases s with
  | leaf T fresh parse =>
      simp only [Item.parserFunc, Item.Conforms, Item.decoded]
      cases parse (.valid x) with
      | error e => simp
      | ok v => exact ⟨by simp, fun _ => rfl⟩
  | object fields strict =>
      cases x with
      | object ms =>
          obtain ⟨hafter, hdest⟩ := Fields.request_spec pf fields hs.2
            (.ofJson (.valid (.object ms))) d
          have hcount := countP_eq_objectSize_iff fields.names hs.1 ms
          have hfinish := hafter.finishParseOrThrow pf strict
          simp only [JsonParser.ofJson_hasError, JsonParser.ofJson_numberOfFields,
            JsonParser.ofJson_jsonValue, JValue.members_object, Nat.zero_add, true_and,
            hcount] at hfinish
          exact ⟨hfinish, fun h => hdest h.1⟩
      | null | bool _ | number _ | string _ | array _ =>
          simp [Item.parserFunc, Item.Conforms, JsonParser.parseValueJsonDataObject,
            JValue.isObject]

theorem Fields.request_spec (pf : Platform) (fs : Fields) (hfs : fs.Distinct) (p : JsonParser)
    (d : fs.Dest) :
    JsonParser.After p (fs.request pf p d).1
        (fs.names.countP fun name => (p.jsonValue.members.lookup name).isSome)
        (fs.Conforms p.jsonValue.members) ∧
      (fs.Conforms p.jsonValue.members →
        (fs.request pf p d).2 = fs.decoded p.jsonValue.members d) := by
  cases fs with
  | nil => exact ⟨(JsonParser.After.refl p).congr rfl (by simp [Fields.Conforms]), fun _ => rfl⟩
  | item name schema optional allowNull rest =>
      rcases d with ⟨d, ds⟩
      have hitem := fun x => Item.parserFunc_spec pf schema hfs.1 x d
      obtain ⟨hfield, hdest⟩ :=
        JsonParser.get_after pf p name d (schema.parserFunc pf) optional allowNull
      rcases Fields.request_spec pf rest hfs.2 _ ds with ⟨hrest, hdests⟩
      rw [hfield.jsonValue] at hrest hdests
      simp only [Fields.request, Fields.Conforms, Fields.decoded, Fields.names]
      refine ⟨(hfield.trans hrest).congr ?_ (and_congr_left' ?_), ?_⟩
      · rw [List.countP_cons, Nat.add_comm]
      · cases p.jsonValue.members.lookup name with
        | none => rfl
        | some x => cases x <;> simp [hitem]
      · intro hconforms
        rcases hconforms with ⟨hok, hoks⟩
        refine Prod.ext (hdest.trans ?_) (hdests hoks)
        cases hx : p.jsonValue.members.lookup name with
        | none => rfl
        | some x =>
            rw [hx] at hok
            cases x with
            | null => rfl
            | bool _ | number _ | string _ | array _ | object _ => exact (hitem _).2 hok
  | array name element optional rest =>
      rcases d with ⟨d, ds⟩
      have hitem := fun x => Item.parserFunc_spec pf element hfs.1 x element.fresh
      obtain ⟨hfield, hdest⟩ :=
        JsonParser.getArray_after pf name element.fresh (element.parserFunc pf) p d optional
      rcases Fields.request_spec pf rest hfs.2 _ ds with ⟨hrest, hdests⟩
      rw [hfield.jsonValue] at hrest hdests
      simp only [Fields.request, Fields.Conforms, Fields.decoded, Fields.names]
      refine ⟨(hfield.trans hrest).congr ?_ (and_congr_left' ?_), ?_⟩
      · rw [List.countP_cons, Nat.add_comm]
      · cases p.jsonValue.members.lookup name with
        | none => rfl
        | some x => cases x <;> simp [hitem]
      · intro hconforms
        rcases hconforms with ⟨hok, hoks⟩
        refine Prod.ext (hdest.trans ?_) (hdests hoks)
        cases hx : p.jsonValue.members.lookup name with
        | none => rfl
        | some x =>
            rw [hx] at hok
            cases x with
            | null | bool _ | number _ | string _ | object _ => exact hok.elim
            | array xs =>
                refine List.map_congr_left fun x hmem => ?_
                have hx' := (hitem x).2 (hok x hmem).2
                have hnull := (hok x hmem).1
                cases x <;> simp_all [JsonParser.itemDest]

end

/-- The top-level decode of an object, as `parseFromJson` and its caller run it. -/
def ObjectSchema.decode (pf : Platform) (schema : ObjectSchema) (ms : List (String × Json))
    (destination : schema.fields.Dest) : Bool × schema.fields.Dest :=
  let r := schema.fields.request pf (.ofJson (.valid (.object ms))) destination
  ((r.1.finishParse schema.strict).2, r.2)

def ObjectSchema.Conforms (schema : ObjectSchema) (ms : List (String × Json)) : Prop :=
  (Item.object schema.fields schema.strict).Conforms (.object ms)

/-- The final check passes exactly on the objects that conform, and then the
destination holds what the schema says. -/
theorem ObjectSchema.decode_iff_conforms (pf : Platform) (schema : ObjectSchema)
    (ms : List (String × Json)) (destination : schema.fields.Dest) :
    ((schema.decode pf ms destination).1 = true ↔ schema.Conforms ms) ∧
      ((schema.decode pf ms destination).1 = true →
        (schema.decode pf ms destination).2 = schema.fields.decoded ms destination) := by
  obtain ⟨hafter, hdest⟩ := Fields.request_spec pf schema.fields schema.distinct.2
    (.ofJson (.valid (.object ms))) destination
  have hcount := countP_eq_objectSize_iff schema.fields.names schema.distinct.1 ms
  have hfinish := hafter.finishParse schema.strict
  simp only [JsonParser.ofJson_hasError, JsonParser.ofJson_numberOfFields,
    JsonParser.ofJson_jsonValue, JValue.members_object, Nat.zero_add, true_and, hcount] at hfinish
  exact ⟨hfinish, fun h => hdest (hfinish.mp h).1⟩

/-- The last check of a parser on an object that was asked for differently named fields. -/
theorem JsonParser.After.accepts {names : List String} (hnames : names.Nodup)
    {ms : List (String × Json)} {q : JsonParser} {ok : Prop}
    (h : JsonParser.After (.ofJson (.valid (.object ms))) q
      (names.countP fun name => (ms.lookup name).isSome) ok) (strict : Bool) :
    (q.finishParse strict).2 = true ↔
      ok ∧ (strict = true → ∀ key ∈ ms.map Prod.fst, key ∈ names) := by
  have hfinish := h.finishParse strict
  simpa only [JsonParser.ofJson_hasError, JsonParser.ofJson_numberOfFields,
    JsonParser.ofJson_jsonValue, Nat.zero_add, true_and,
    countP_eq_objectSize_iff names hnames ms] using hfinish

end LSHelpers
