import LSHelpers.Json.Conformance
import LSHelpers.Json.Getters

/-!
# Objects within objects, read by hand

An object inside another can be read by a data object of its own, or with `getObject`,
whose parser the caller has to finish as well. For mandatory objects the two ways accept
the same values and store the same things, although `getObject` knows nothing of the inner
parser and goes on where the other stops.
-/

namespace LSHelpers

mutual

/-- A field that is read by hand, with whether the parsers inside were finished without an
error. `getObject` has no optional objects. -/
def Item.byHand (pf : Platform) (name : String) (optional allowNull : Bool) :
    (s : Item) → JsonParser → s.Dest → JsonParser × s.Dest × Bool
  | .leaf T fresh parse => fun p d =>
      let r := (((p.get pf name d ((Item.leaf T fresh parse).parserFunc pf)).optional
        optional).allowNull allowNull).finishParse
      (r.1, r.2, true)
  | .object fields strict => fun p d =>
      if optional then
        let r := (((p.get pf name d ((Item.object fields strict).parserFunc pf)).optional
          optional).allowNull allowNull).finishParse
        (r.1, r.2, true)
      else
        let sub := p.getObject pf name
        let r := fields.byHand pf sub.2 d
        (sub.1, r.2.1, r.2.2 && (r.1.finishParse strict).2)

def Fields.byHand (pf : Platform) :
    (fs : Fields) → JsonParser → fs.Dest → JsonParser × fs.Dest × Bool
  | .nil => fun p _ => (p, (), true)
  | .item name schema optional allowNull rest => fun p d =>
      let r := schema.byHand pf name optional allowNull p d.1
      let rs := rest.byHand pf r.1 d.2
      (rs.1, (r.2.1, rs.2.1), r.2.2 && rs.2.2)
  | .array name element optional rest => fun p d =>
      let r := ((p.getArray pf name d.1 element.fresh (element.parserFunc pf)).optional
        optional).finishParse
      let rs := rest.byHand pf r.1 d.2
      (rs.1, (r.2, rs.2.1), rs.2.2)

end

/-! ## The parser of a sub-object -/

/-- A field that is an object gives its parser; anything else is an error. -/
theorem JsonParser.getObject_after (pf : Platform) (p : JsonParser) (name : String) :
    JsonParser.After p (p.getObject pf name).1
        (if (p.jsonValue.members.lookup name).isSome then 1 else 0)
        (∃ ms, p.jsonValue.members.lookup name = some (.object ms)) ∧
      ∀ ms, p.jsonValue.members.lookup name = some (.object ms) →
        (p.getObject pf name).2 = .ofJson (.valid (.object ms)) := by
  have hget := JsonParser.get_after pf p name (.valid .null) JsonParser.parseValueJValue false false
  have hflags : ((p.get pf name (.valid .null) JsonParser.parseValueJValue).optional
      false).allowNull false = p.get pf name (.valid .null) JsonParser.parseValueJValue :=
    JsonParser.getImpl_flags _ _ _ _ _ _ _
  rw [hflags] at hget
  dsimp only at hget
  rcases hget with ⟨hafter, hobj⟩
  unfold JsonParser.getObject
  dsimp only
  generalize (p.get pf name (.valid .null) JsonParser.parseValueJValue).finishParse = r
    at hafter hobj
  rcases r with ⟨q, obj⟩
  obtain rfl : obj = _ := hobj
  cases hfield : p.jsonValue.members.lookup name with
  | none =>
      rw [hfield] at hafter
      refine ⟨?_, by simp⟩
      exact (hafter.trans (JsonParser.After.recordError _ _ _)).congr rfl (by simp)
  | some x =>
      rw [hfield] at hafter
      cases x with
      | object ms =>
          refine ⟨hafter.congr rfl (by simp [JsonParser.parseValueJValue]), ?_⟩
          intro ms' hms
          cases hms
          rfl
      | null | bool _ | number _ | string _ | array _ =>
          refine ⟨?_, by simp⟩
          exact (hafter.trans (JsonParser.After.recordError _ _ _)).congr rfl (by simp)

/-! ## The induction over the schema -/

/-- How fields are read: all parsers are without an error exactly if the fields conform,
and then the destination holds what they say. -/
structure ReadsFields (fs : Fields) (p : JsonParser) (d : fs.Dest)
    (r : JsonParser × fs.Dest × Bool) : Prop where
  after : ∃ ok, JsonParser.After p r.1
      (fs.names.countP fun name => (p.jsonValue.members.lookup name).isSome) ok ∧
    (ok ∧ r.2.2 = true ↔ fs.Conforms p.jsonValue.members)
  stored : fs.Conforms p.jsonValue.members → r.2.1 = fs.decoded p.jsonValue.members d

/-- The fields are read by the schema. -/
theorem reads_request (pf : Platform) (fs : Fields) (hfs : fs.Distinct) (p : JsonParser)
    (d : fs.Dest) : ReadsFields fs p d ((fs.request pf p d).1, (fs.request pf p d).2, true) := by
  rcases Fields.request_spec pf fs hfs p d with ⟨hafter, hdest⟩
  exact ⟨⟨_, hafter, by simp⟩, hdest⟩

theorem ReadsFields.jsonValue {fs : Fields} {p : JsonParser} {d : fs.Dest}
    {r : JsonParser × fs.Dest × Bool} (h : ReadsFields fs p d r) : r.1.jsonValue = p.jsonValue := by
  rcases h.after with ⟨ok, hafter, _⟩
  exact hafter.jsonValue

/-- The error and the count of some fields, and then of others. -/
theorem ReadsFields.after_append {whole fs rest : Fields} {p : JsonParser} {d : fs.Dest}
    {ds : rest.Dest} {r : JsonParser × fs.Dest × Bool} {rs : JsonParser × rest.Dest × Bool}
    (h : ReadsFields fs p d r) (hrest : ReadsFields rest r.1 ds rs)
    (hnames : whole.names = fs.names ++ rest.names)
    (hconforms : ∀ ms, whole.Conforms ms ↔ fs.Conforms ms ∧ rest.Conforms ms) :
    ∃ ok, JsonParser.After p rs.1
        (whole.names.countP fun name => (p.jsonValue.members.lookup name).isSome) ok ∧
      (ok ∧ (r.2.2 && rs.2.2) = true ↔ whole.Conforms p.jsonValue.members) := by
  have hsame := h.jsonValue
  rcases h.after with ⟨ok, hafter, hiff⟩
  rcases hrest.after with ⟨ok', hafter', hiff'⟩
  rw [hsame] at hafter' hiff'
  refine ⟨ok ∧ ok', ?_, ?_⟩
  · rw [hnames, List.countP_append]
    exact hafter.trans hafter'
  · rw [hconforms, Bool.and_eq_true, and_and_and_comm, hiff, hiff']

/-- One field, and then the others. -/
theorem ReadsFields.item {name : String} {schema : Item} {optional allowNull inner : Bool}
    {rest : Fields} {p q : JsonParser} {d x : schema.Dest} {ds : rest.Dest}
    {rs : JsonParser × rest.Dest × Bool}
    (h : ReadsFields (.item name schema optional allowNull .nil) p (d, ()) (q, (x, ()), inner))
    (hrest : ReadsFields rest q ds rs) :
    ReadsFields (.item name schema optional allowNull rest) p (d, ds)
      (rs.1, (x, rs.2.1), inner && rs.2.2) where
  after := h.after_append hrest rfl (by simp [Fields.Conforms])
  stored hconforms := by
    have hfirst := congrArg Prod.fst (h.stored ⟨hconforms.1, trivial⟩)
    have hothers := hrest.stored (h.jsonValue ▸ hconforms.2)
    rw [h.jsonValue] at hothers
    exact Prod.ext (by simpa [Fields.decoded] using hfirst) hothers

theorem ReadsFields.array {name : String} {element : Item} {optional inner : Bool}
    {rest : Fields} {p q : JsonParser} {d x : List element.Dest} {ds : rest.Dest}
    {rs : JsonParser × rest.Dest × Bool}
    (h : ReadsFields (.array name element optional .nil) p (d, ()) (q, (x, ()), inner))
    (hrest : ReadsFields rest q ds rs) :
    ReadsFields (.array name element optional rest) p (d, ds)
      (rs.1, (x, rs.2.1), inner && rs.2.2) where
  after := h.after_append hrest rfl (by simp [Fields.Conforms])
  stored hconforms := by
    have hfirst := congrArg Prod.fst (h.stored ⟨hconforms.1, trivial⟩)
    have hothers := hrest.stored (h.jsonValue ▸ hconforms.2)
    rw [h.jsonValue] at hothers
    exact Prod.ext (by simpa [Fields.decoded] using hfirst) hothers

/-- The last check of a parser and those inside it. -/
theorem ReadsFields.accepts {fs : Fields} (hnames : fs.names.Nodup) {ms : List (String × Json)}
    {d : fs.Dest} {r : JsonParser × fs.Dest × Bool}
    (h : ReadsFields fs (.ofJson (.valid (.object ms))) d r) (strict : Bool) :
    (r.2.2 && (r.1.finishParse strict).2) = true ↔
      (Item.object fs strict).Conforms (.object ms) := by
  rcases h.after with ⟨ok, hafter, hiff⟩
  have hinside : ok ∧ r.2.2 = true ↔ fs.Conforms ms := hiff
  rw [Bool.and_eq_true, hafter.accepts hnames strict, Item.Conforms, ← hinside, ← and_assoc,
    and_comm (b := ok)]

/-- A mandatory object is read with `getObject`. -/
theorem ReadsFields.getObject (pf : Platform) {fields : Fields} {strict : Bool}
    (hnames : fields.names.Nodup) (name : String) (allowNull : Bool) (p : JsonParser)
    (d : fields.Dest)
    (h : ∀ q d, ReadsFields fields q d (fields.byHand pf q d)) :
    let sub := p.getObject pf name
    let r := fields.byHand pf sub.2 d
    ReadsFields (.item name (.object fields strict) false allowNull .nil) p (d, ())
      (sub.1, (r.2.1, ()), r.2.2 && (r.1.finishParse strict).2) := by
  rcases JsonParser.getObject_after pf p name with ⟨hafter, hsub⟩
  have hcount : (Fields.item name (.object fields strict) false allowNull .nil).names.countP
      (fun name => (p.jsonValue.members.lookup name).isSome) =
        if (p.jsonValue.members.lookup name).isSome then 1 else 0 := by
    simp only [Fields.names, List.countP_cons, List.countP_nil, Nat.zero_add]
  have hcongr := hafter.congr hcount.symm Iff.rfl
  by_cases hobject : ∃ ms, p.jsonValue.members.lookup name = some (.object ms)
  · rcases hobject with ⟨ms, hfield⟩
    have hread := h (.ofJson (.valid (.object ms))) d
    dsimp only
    rw [hsub ms hfield]
    refine ⟨⟨_, hcongr, ?_⟩, ?_⟩
    · simp only [hread.accepts hnames strict, Fields.Conforms, hfield, and_true]
      exact and_iff_right ⟨ms, rfl⟩
    · intro hconforms
      simp only [Fields.Conforms, hfield, Item.Conforms] at hconforms
      have hstored := hread.stored hconforms.1.1
      simp only [Fields.decoded, hfield, Item.decoded]
      exact congrArg (fun x => (x, ())) hstored
  · have hnot : ¬ (Fields.item name (.object fields strict) false allowNull .nil).Conforms
        p.jsonValue.members := by
      simp only [Fields.Conforms]
      cases hfield : p.jsonValue.members.lookup name with
      | none => simp
      | some x =>
          cases x with
          | object ms => exact absurd ⟨ms, hfield⟩ hobject
          | null | bool _ | number _ | string _ | array _ => simp [Item.Conforms]
    refine ⟨⟨_, hcongr, ?_⟩, fun hconforms => absurd hconforms hnot⟩
    simp only [hobject, false_and, hnot]

mutual

theorem Item.byHand_reads (pf : Platform) (s : Item) (hs : s.Distinct) (name : String)
    (optional allowNull : Bool) (p : JsonParser) (d : s.Dest) :
    ReadsFields (.item name s optional allowNull .nil) p (d, ())
      ((s.byHand pf name optional allowNull p d).1,
        ((s.byHand pf name optional allowNull p d).2.1, ()),
        (s.byHand pf name optional allowNull p d).2.2) := by
  cases s with
  | leaf T fresh parse =>
      exact reads_request pf (.item name (.leaf T fresh parse) optional allowNull .nil)
        ⟨hs, trivial⟩ p (d, ())
  | object fields strict =>
      cases optional with
      | true =>
          exact reads_request pf (.item name (.object fields strict) true allowNull .nil)
            ⟨hs, trivial⟩ p (d, ())
      | false =>
          exact ReadsFields.getObject pf hs.1 name allowNull p d
            fun q d => Fields.byHand_reads pf fields hs.2 q d

theorem Fields.byHand_reads (pf : Platform) (fs : Fields) (hfs : fs.Distinct) (p : JsonParser)
    (d : fs.Dest) : ReadsFields fs p d (fs.byHand pf p d) := by
  cases fs with
  | nil => exact reads_request pf .nil trivial p d
  | item name schema optional allowNull rest =>
      rcases d with ⟨d, ds⟩
      exact (Item.byHand_reads pf schema hfs.1 name optional allowNull p d).item
        (Fields.byHand_reads pf rest hfs.2 _ ds)
  | array name element optional rest =>
      rcases d with ⟨d, ds⟩
      exact (reads_request pf (.array name element optional .nil) ⟨hfs.1, trivial⟩ p (d, ())).array
        (Fields.byHand_reads pf rest hfs.2 _ ds)

end

/-! ## The two ways -/

/-- The top-level read of an object by hand: the parsers inside are finished by the caller
as they are done, and the outer one at the end. -/
def ObjectSchema.readByHand (pf : Platform) (schema : ObjectSchema) (ms : List (String × Json))
    (destination : schema.fields.Dest) : Bool × schema.fields.Dest :=
  let r := schema.fields.byHand pf (.ofJson (.valid (.object ms))) destination
  (r.2.2 && (r.1.finishParse schema.strict).2, r.2.1)

/-- An object is read by hand without an error exactly when its data object decodes it, and
then the destination is the same. -/
theorem ObjectSchema.readByHand_eq_decode (pf : Platform) (schema : ObjectSchema)
    (ms : List (String × Json)) (destination : schema.fields.Dest) :
    (schema.readByHand pf ms destination).1 = (schema.decode pf ms destination).1 ∧
      ((schema.decode pf ms destination).1 = true →
        schema.readByHand pf ms destination = schema.decode pf ms destination) := by
  have hread := Fields.byHand_reads pf schema.fields schema.distinct.2
    (.ofJson (.valid (.object ms))) destination
  obtain ⟨hafter, hdest⟩ := Fields.request_spec pf schema.fields schema.distinct.2
    (.ofJson (.valid (.object ms))) destination
  have hdecode : (schema.decode pf ms destination).1 = true ↔ schema.Conforms ms :=
    hafter.accepts schema.distinct.1 schema.strict
  have hhand : (schema.readByHand pf ms destination).1 = true ↔ schema.Conforms ms :=
    hread.accepts schema.distinct.1 schema.strict
  have hsame := Bool.eq_iff_iff.mpr (hhand.trans hdecode.symm)
  refine ⟨hsame, ?_⟩
  intro htrue
  have hconforms := (hdecode.mp htrue).1
  exact Prod.ext hsame ((hread.stored hconforms).trans (hdest hconforms).symm)

end LSHelpers
