import Mathlib.Data.List.Dedup
import Mathlib.Data.Rat.Defs

/-!
# JSON values and the platform under the library

`Json` is a document value and `JValue` what pbnjson hands out, which may be
invalid. The members of an object are a list read by first match, so a key has
one value however the list is written, and the size of an object is the number
of its distinct keys. `Platform` collects the calls whose code lies outside the
repository; nothing is assumed of them here.
-/

namespace LSHelpers

inductive Json
  | null
  | bool (b : Bool)
  | number (q : Rat)
  | string (s : String)
  | array (items : List Json)
  | object (members : List (String × Json))
deriving Repr

/-- `pbnjson::JValue`: the invalid value of a failed parse, or a document value. -/
inductive JValue
  | invalid
  | valid (json : Json)
deriving Repr

/-- The calls into pbnjson and the C library. `format` is the printf expansion of a format
that comes with no further argument, `Platform.Prints` ties it to the source's own function,
and where C leaves the expansion undefined it stands for any text. -/
structure Platform where
  JSchema : Type
  allSchema : JSchema
  fromString : String → JSchema → JValue
  serialize : JValue → String
  isNullOfInvalid : Bool
  format : String → String

/-- The part of a platform that knows the text of the empty object and no other. -/
def Platform.ofEmptyObject : Platform where
  JSchema := Unit
  allSchema := ()
  fromString payload _ := if payload = "\x7b\x7d" then .valid (.object []) else .invalid
  serialize _ := "\x7b\x7d"
  isNullOfInvalid := true
  format text := text

namespace JValue

def isValid : JValue → Bool
  | .invalid => false
  | .valid _ => true

def isNull (pf : Platform) : JValue → Bool
  | .invalid => pf.isNullOfInvalid
  | .valid .null => true
  | .valid _ => false

def isObject : JValue → Bool
  | .valid (.object _) => true
  | _ => false

/-- The members of an object, none of any other value. -/
def members : JValue → List (String × Json)
  | .valid (.object ms) => ms
  | _ => []

/-- The elements of an array; `none` when the value is no array. -/
def items : JValue → Option (List Json)
  | .valid (.array xs) => some xs
  | _ => none

def hasKey (v : JValue) (name : String) : Bool := (v.members.lookup name).isSome

/-- `operator[]` with a key. -/
def field (v : JValue) (name : String) : JValue :=
  match v.members.lookup name with
  | some x => .valid x
  | none => .invalid

def objectSize (v : JValue) : Nat := (v.members.map Prod.fst).dedup.length

@[simp] theorem members_object (ms : List (String × Json)) :
    (JValue.valid (.object ms)).members = ms := rfl

@[simp] theorem isNull_null (pf : Platform) : (JValue.valid .null).isNull pf = true := rfl

theorem isNull_valid_iff (pf : Platform) (x : Json) :
    (JValue.valid x).isNull pf = true ↔ x = .null := by
  cases x <;> simp [isNull]

theorem isNull_valid_of_ne (pf : Platform) {x : Json} (hx : x ≠ .null) :
    (JValue.valid x).isNull pf = false :=
  Bool.eq_false_iff.mpr ((isNull_valid_iff pf x).not.mpr hx)

end JValue

end LSHelpers
