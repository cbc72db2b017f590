import LSHelpers.Json.Copy

/-!
# The overloads of `getAndMap`

The array overload goes over its pairs by index, the initializer list by iterator, and
`std::unordered_map` keeps the first of the entries whose keys are equal: all three look
up the first pair with an equal key.
-/

namespace LSHelpers

variable {T IT : Type}

/-! ## The look-ups -/

section Lookup

variable [BEq IT] {n : Nat}

/-- The loop over the array, from the index `i` on. -/
def findInArray (valueMap : Vector (IT × T) n) (value : IT) (i : Nat) : Option T :=
  if h : i < n then
    if valueMap[i].1 == value then some valueMap[i].2 else findInArray valueMap value (i + 1)
  else none

/-- The loop from an iterator to the end. -/
def findInList (value : IT) : List (IT × T) → Option T
  | [] => none
  | pair :: rest => if pair.1 == value then some pair.2 else findInList value rest

/-- An `std::unordered_map` with the pairs inserted in order. -/
def unorderedMap [Hashable IT] (pairs : List (IT × T)) : Std.HashMap IT T :=
  pairs.foldl (fun valueMap pair => valueMap.insertIfNew pair.1 pair.2) ∅

/-- The value of the first pair with an equal key. -/
def firstMatch (pairs : List (IT × T)) (value : IT) : Option T :=
  (pairs.find? fun pair => pair.1 == value).map Prod.snd

theorem firstMatch_cons (pair : IT × T) (pairs : List (IT × T)) (value : IT) :
    firstMatch (pair :: pairs) value =
      if pair.1 == value then some pair.2 else firstMatch pairs value := by
  unfold firstMatch
  rw [List.find?_cons]
  cases pair.1 == value <;> rfl

theorem findInList_eq (value : IT) (pairs : List (IT × T)) :
    findInList value pairs = firstMatch pairs value := by
  induction pairs with
  | nil => rfl
  | cons pair pairs ih => rw [findInList, firstMatch_cons, ih]

/-- By the indices that are left. -/
theorem findInArray_eq (valueMap : Vector (IT × T) n) (value : IT) (i : Nat) :
    findInArray valueMap value i = firstMatch (valueMap.toList.drop i) value := by
  fun_induction findInArray valueMap value i with
  | case1 i hlt hkey =>
      rw [List.drop_eq_getElem_cons (by simpa using hlt), firstMatch_cons]
      simp [hkey]
  | case2 i hlt hkey ih =>
      rw [ih, List.drop_eq_getElem_cons (i := i) (by simpa using hlt), firstMatch_cons]
      simp [hkey]
  | case3 i hlt =>
      rw [List.drop_of_length_le (by simpa using hlt)]
      rfl

section UnorderedMap

variable [Hashable IT] [EquivBEq IT] [LawfulHashable IT]

/-- An entry that is there is kept. -/
theorem getElem?_insertIfNew_eq (valueMap : Std.HashMap IT T) (pair : IT × T) (value : IT) :
    (valueMap.insertIfNew pair.1 pair.2)[value]? =
      valueMap[value]?.or (if pair.1 == value then some pair.2 else none) := by
  rw [Std.HashMap.getElem?_insertIfNew]
  cases hkey : pair.1 == value with
  | false => simp
  | true =>
      have hmem : pair.1 ∈ valueMap ↔ value ∈ valueMap := Std.HashMap.mem_congr hkey
      by_cases hvalue : value ∈ valueMap
      · have hsome := Std.HashMap.mem_iff_isSome_getElem?.mp hvalue
        rcases Option.isSome_iff_exists.mp hsome with ⟨second, hsecond⟩
        rw [hsecond]
        simp [hmem, hvalue]
      · simp [hmem, hvalue]

theorem getElem?_unorderedMap (pairs : List (IT × T)) (value : IT) :
    (unorderedMap pairs)[value]? = firstMatch pairs value := by
  have hfold : ∀ valueMap : Std.HashMap IT T,
      (pairs.foldl (fun valueMap pair => valueMap.insertIfNew pair.1 pair.2) valueMap)[value]? =
        valueMap[value]?.or (firstMatch pairs value) := by
    induction pairs with
    | nil => simp [firstMatch]
    | cons pair pairs ih =>
        intro valueMap
        rw [List.foldl_cons, ih, getElem?_insertIfNew_eq, firstMatch_cons, Option.or_assoc]
        cases pair.1 == value <;> rfl
  have hempty := hfold ∅
  rw [Std.HashMap.getElem?_empty, Option.none_or] at hempty
  exact hempty

end UnorderedMap

end Lookup

/-! ## The overloads -/

namespace JsonParser

section Overloads

variable [BEq IT] (pf : Platform) (p : JsonParser) (name : String) (destination : T)
  (intermediateValue : IT) (parserFunc : ParserFunc IT)

/-- The overload over `std::unordered_map`. -/
def getAndMapUnorderedMap [Hashable IT] (valueMap : Std.HashMap IT T) : JsonParseContext T :=
  getAndMap pf p name destination intermediateValue parserFunc fun value => valueMap[value]?

/-- The overload over `std::array`. -/
def getAndMapArray {n : Nat} (valueMap : Vector (IT × T) n) : JsonParseContext T :=
  getAndMap pf p name destination intermediateValue parserFunc fun value =>
    findInArray valueMap value 0

/-- The overload over `std::initializer_list`. -/
def getAndMapInitializerList (valueMap : List (IT × T)) : JsonParseContext T :=
  getAndMap pf p name destination intermediateValue parserFunc fun value =>
    findInList value valueMap

theorem getAndMapInitializerList_eq (pairs : List (IT × T)) :
    getAndMapInitializerList pf p name destination intermediateValue parserFunc pairs =
      getAndMap pf p name destination intermediateValue parserFunc (firstMatch pairs) := by
  unfold getAndMapInitializerList
  congr 1
  funext value
  exact findInList_eq value pairs

theorem getAndMapArray_eq (pairs : List (IT × T)) :
    getAndMapArray pf p name destination intermediateValue parserFunc
        pairs.toArray.toVector =
      getAndMap pf p name destination intermediateValue parserFunc (firstMatch pairs) := by
  unfold getAndMapArray
  congr 1
  funext value
  rw [findInArray_eq]
  rfl

theorem getAndMapUnorderedMap_eq [Hashable IT] [EquivBEq IT] [LawfulHashable IT]
    (pairs : List (IT × T)) :
    getAndMapUnorderedMap pf p name destination intermediateValue parserFunc
        (unorderedMap pairs) =
      getAndMap pf p name destination intermediateValue parserFunc (firstMatch pairs) := by
  unfold getAndMapUnorderedMap
  congr 1
  funext value
  exact getElem?_unorderedMap pairs value

end Overloads

end JsonParser

/-! ## What a look-up leaves -/

/-- Once there is an error, the chain and the destructor change nothing of the parser. -/
theorem JsonParseContext.finish_of_hasError {c : JsonParseContext T}
    (h : c.parser.hasError = true) (chain : List (Constraint T)) :
    (c.finish chain).parser = c.parser := by
  have hchained : (c.chained chain).1.parser = c.parser := by
    induction chain using List.reverseRecOn with
    | nil => rfl
    | append_singleton chain k ih =>
        have hstep : c.chained (chain ++ [k]) = k.apply (c.chained chain) := by
          simp [chained, List.foldl_append]
        rcases k.apply_eq (c.chained chain).1 (c.chained chain).2 with ⟨message, happly⟩
        rw [hstep, happly]
        dsimp only
        rw [ih, recordError_of_hasError h, ite_self]
  unfold finish finishParse
  dsimp only
  rw [hchained]
  simp only [recordError_of_hasError h]
  split_ifs <;> rfl

/-- A value is read of a field that is there, and the field is counted. -/
theorem JsonParser.get_parser_of_valueRead (pf : Platform) (p : JsonParser) (name : String)
    (destination : T) (parserFunc : ParserFunc T)
    (h : (p.get pf name destination parserFunc).valueRead = true) :
    (p.get pf name destination parserFunc).parser = p.countField := by
  unfold JsonParser.get at h ⊢
  cases hkey : p.jsonValue.hasKey name with
  | false => simp [hkey, getImpl] at h
  | true =>
      simp only [hkey, if_true] at h ⊢
      unfold getImpl at h ⊢
      dsimp only at h ⊢
      split at h
      · cases h
      · next hnull =>
          rw [if_neg hnull]
          split at h
          · rfl
          · cases h

section

variable (pf : Platform) (p : JsonParser) (name : String) (destination : T)
  (intermediateValue : IT) (parserFunc : ParserFunc IT) (find : IT → Option T)

theorem getAndMap_of_read
    (h : (p.get pf name intermediateValue parserFunc).valueRead = true) :
    p.getAndMap pf name destination intermediateValue parserFunc find =
      match find (p.get pf name intermediateValue parserFunc).destination with
      | some value => ⟨p.countField, name, value, true, false, false, false⟩
      | none =>
          ⟨p.countField.recordError name "value not in allowed values list", name, destination,
            false, false, false, false⟩ := by
  have hparser := p.get_parser_of_valueRead pf name intermediateValue parserFunc h
  have hfinish : ((p.get pf name intermediateValue parserFunc).optional true).finishParse =
      (p.countField, (p.get pf name intermediateValue parserFunc).destination) := by
    simp [JsonParseContext.finishParse, JsonParseContext.optional, h, hparser]
  have hread : ((p.get pf name intermediateValue parserFunc).optional true).checkValueRead =
      true := h
  unfold JsonParser.getAndMap
  dsimp only
  rw [hfinish, hread]
  cases find (p.get pf name intermediateValue parserFunc).destination with
  | some value => simp
  | none => simp

theorem getAndMap_of_unread
    (h : (p.get pf name intermediateValue parserFunc).valueRead = false) :
    (p.getAndMap pf name destination intermediateValue parserFunc find).valueRead = false ∧
      (p.getAndMap pf name destination intermediateValue parserFunc find).destination =
        destination := by
  unfold JsonParser.getAndMap
  simp [JsonParseContext.checkValueRead, JsonParseContext.optional, h]

end

/-- What the value read of a field makes of the destination: `field` is the nested `get`. -/
structure MapsFirst [BEq IT] (p : JsonParser) (name : String) (destination : T)
    (pairs : List (IT × T)) (field : JsonParseContext IT) (r : FieldResult T)
    (chain : List (Constraint T)) : Prop where
  matched : ∀ pair, field.valueRead = true →
    (pairs.find? fun pair => pair.1 == field.destination) = some pair → r.destination = pair.2
  unmatched : field.valueRead = true →
    (pairs.find? fun pair => pair.1 == field.destination) = none →
    r.parser.hasError = true ∧
      r.parser.parseError = (p.recordError name "value not in allowed values list").parseError ∧
      r.destination = defaulted chain destination
  unread : field.valueRead = false → r.destination = defaulted chain destination

theorem getAndMap_mapsFirst [BEq IT] (pf : Platform) (p : JsonParser) (name : String)
    (destination : T) (intermediateValue : IT) (parserFunc : ParserFunc IT)
    (pairs : List (IT × T)) (chain : List (Constraint T)) :
    MapsFirst p name destination pairs (p.get pf name intermediateValue parserFunc)
      ((p.getAndMap pf name destination intermediateValue parserFunc (firstMatch pairs)).finish
        chain) chain := by
  have hread := getAndMap_of_read pf p name destination intermediateValue parserFunc
    (firstMatch pairs)
  have hunread := getAndMap_of_unread pf p name destination intermediateValue parserFunc
    (firstMatch pairs)
  constructor
  · intro pair h hpair
    rw [hread h, firstMatch, hpair, JsonParseContext.finish_destination]
    rfl
  · intro h hnone
    rw [hread h, firstMatch, hnone, JsonParseContext.finish_destination]
    dsimp only [Option.map_none]
    rw [JsonParseContext.finish_of_hasError (JsonParser.recordError_hasError _ _ _)]
    refine ⟨JsonParser.recordError_hasError _ _ _, ?_, rfl⟩
    unfold JsonParser.recordError JsonParser.countField
    dsimp only
    split <;> rfl
  · intro h
    rw [JsonParseContext.finish_destination, (hunread h).1, (hunread h).2]
    rfl

/-- The three overloads return the same context, and leave the first match. -/
theorem getAndMap_overloads [BEq IT] [Hashable IT] [EquivBEq IT] [LawfulHashable IT]
    (pf : Platform) (p : JsonParser) (name : String) (destination : T) (intermediateValue : IT)
    (parserFunc : ParserFunc IT) (pairs : List (IT × T)) (chain : List (Constraint T)) :
    let array := p.getAndMapArray pf name destination intermediateValue parserFunc
      pairs.toArray.toVector
    let list := p.getAndMapInitializerList pf name destination intermediateValue parserFunc pairs
    let map := p.getAndMapUnorderedMap pf name destination intermediateValue parserFunc
      (unorderedMap pairs)
    array = list ∧ map = list ∧ array.finish chain = list.finish chain ∧
      map.finish chain = list.finish chain ∧
      MapsFirst p name destination pairs (p.get pf name intermediateValue parserFunc)
        (list.finish chain) chain := by
  dsimp only
  rw [p.getAndMapArray_eq, p.getAndMapInitializerList_eq, p.getAndMapUnorderedMap_eq]
  exact ⟨rfl, rfl, rfl, rfl,
    getAndMap_mapsFirst pf p name destination intermediateValue parserFunc pairs chain⟩

/-- A key that is there twice: the first pair counts. -/
theorem getAndMap_overloads_twice :
    let p := JsonParser.ofJson (.valid (.object [("a", .string "x")]))
    let parserFunc := JsonParser.parseValueString .ofEmptyObject
    let pairs := [("y", 0), ("x", 1), ("x", 2)]
    let array := p.getAndMapArray .ofEmptyObject "a" 7 "" parserFunc pairs.toArray.toVector
    let map := p.getAndMapUnorderedMap .ofEmptyObject "a" 7 "" parserFunc (unorderedMap pairs)
    array = map ∧ (array.finish [.defaultValue 9]).destination = 1 := by
  intro p parserFunc pairs array map
  rcases getAndMap_overloads .ofEmptyObject p "a" 7 "" parserFunc pairs [.defaultValue 9] with
    ⟨harray, hmap, hfinish, _, hfirst⟩
  refine ⟨harray.trans hmap.symm, ?_⟩
  rw [hfinish]
  exact hfirst.matched ("x", 1) rfl rfl

end LSHelpers
