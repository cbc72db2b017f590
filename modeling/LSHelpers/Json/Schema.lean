import LSHelpers.Json.Parser

/-!
# Schemas and the values that conform to them

A schema is what the fields of a data object are read as. `Fields.request` is the
body of its `parseFromJson`: one `get` or `getArray` for each field, and then
`finishParseOrThrow`. `Conforms` says which values a schema is meant to accept and
`decoded` what the destination is meant to hold; both speak of the JSON value only.
-/

namespace LSHelpers

mutual

/-- What a single `get`, or an element of `getArray`, decodes: a leaf with the parse
function of its type, or an object. -/
inductive Item : Type 1
  | leaf (T : Type) (fresh : T) (parse : JValue → Except JsonParseError T)
  | object (fields : Fields) (strict : Bool)

/-- The fields of an object, in the order in which they are requested. -/
inductive Fields : Type 1
  | nil
  | item (name : String) (schema : Item) (optional allowNull : Bool) (rest : Fields)
  | array (name : String) (element : Item) (optional : Bool) (rest : Fields)

end

def Fields.names : Fields → List String
  | .nil => []
  | .item name _ _ _ rest => name :: rest.names
  | .array name _ _ rest => name :: rest.names

mutual

/-- The C++ type an item is read into. -/
def Item.Dest : Item → Type
  | .leaf T _ _ => T
  | .object fields _ => fields.Dest

def Fields.Dest : Fields → Type
  | .nil => Unit
  | .item _ schema _ _ rest => schema.Dest × rest.Dest
  | .array _ element _ rest => List element.Dest × rest.Dest

end

mutual

/-- The value of a default-constructed destination. -/
def Item.fresh : (s : Item) → s.Dest
  | .leaf _ fresh _ => fresh
  | .object fields _ => fields.fresh

def Fields.fresh : (fs : Fields) → fs.Dest
  | .nil => ()
  | .item _ schema _ _ rest => (schema.fresh, rest.fresh)
  | .array _ _ _ rest => ([], rest.fresh)

end

mutual

/-- The parse function `get` and `getArray` are given for an item. -/
def Item.parserFunc (pf : Platform) : (s : Item) → ParserFunc s.Dest
  | .leaf _ _ parse => fun value destination =>
      match parse value with
      | .ok x => (.ok (), x)
      | .error e => (.error e, destination)
  | .object fields strict =>
      JsonParser.parseValueJsonDataObject pf fun value destination =>
        let r := fields.request pf (.ofJson value) destination
        ((r.1.finishParseOrThrow pf strict).2, r.2)

/-- The requests of a data object on its parser, one after another. -/
def Fields.request (pf : Platform) : (fs : Fields) → JsonParser → fs.Dest → JsonParser × fs.Dest
  | .nil => fun p _ => (p, ())
  | .item name schema optional allowNull rest => fun p d =>
      let r := (((p.get pf name d.1 (schema.parserFunc pf)).optional optional).allowNull
        allowNull).finishParse
      let rs := rest.request pf r.1 d.2
      (rs.1, (r.2, rs.2))
  | .array name element optional rest => fun p d =>
      let r := ((p.getArray pf name d.1 element.fresh (element.parserFunc pf)).optional
        optional).finishParse
      let rs := rest.request pf r.1 d.2
      (rs.1, (r.2, rs.2))

end

/-! ## What a schema accepts -/

mutual

def Item.Conforms : Item → Json → Prop
  | .leaf _ _ parse, x => ∃ v, parse (.valid x) = .ok v
  | .object fields strict, x =>
      match x with
      | .object ms =>
          fields.Conforms ms ∧ (strict = true → ∀ key ∈ ms.map Prod.fst, key ∈ fields.names)
      | _ => False

def Fields.Conforms : Fields → List (String × Json) → Prop
  | .nil, _ => True
  | .item name schema optional allowNull rest, ms =>
      (match ms.lookup name with
        | none => optional = true
        | some .null => optional = true ∧ allowNull = true
        | some x => schema.Conforms x) ∧ rest.Conforms ms
  | .array name element optional rest, ms =>
      (match ms.lookup name with
        | none => optional = true
        | some (.array xs) => ∀ x ∈ xs, x ≠ .null ∧ element.Conforms x
        | some _ => False) ∧ rest.Conforms ms

end

mutual

/-- What a destination holds once a conforming value has been read into it: a field
that is absent or null leaves its part of the destination as it was. -/
def Item.decoded : (s : Item) → Json → s.Dest → s.Dest
  | .leaf _ _ parse => fun x d =>
      match parse (.valid x) with
      | .ok v => v
      | .error _ => d
  | .object fields _ => fun x d =>
      match x with
      | .object ms => fields.decoded ms d
      | _ => d

def Fields.decoded : (fs : Fields) → List (String × Json) → fs.Dest → fs.Dest
  | .nil => fun _ _ => ()
  | .item name schema _ _ rest => fun ms d =>
      (match ms.lookup name with
        | none | some .null => d.1
        | some x => schema.decoded x d.1, rest.decoded ms d.2)
  | .array name element _ rest => fun ms d =>
      (match ms.lookup name with
        | some (.array xs) => xs.map fun x => element.decoded x element.fresh
        | _ => d.1, rest.decoded ms d.2)

end

mutual

/-- Fields of one object have different names, at every depth. -/
def Item.Distinct : Item → Prop
  | .leaf _ _ _ => True
  | .object fields _ => fields.names.Nodup ∧ fields.Distinct

def Fields.Distinct : Fields → Prop
  | .nil => True
  | .item _ schema _ _ rest => schema.Distinct ∧ rest.Distinct
  | .array _ element _ rest => element.Distinct ∧ rest.Distinct

end

/-- The schema of a JSON object; its fields are differently named by construction. -/
structure ObjectSchema where
  fields : Fields
  strict : Bool
  distinct : (Item.object fields strict).Distinct

end LSHelpers
