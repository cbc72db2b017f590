import LSHelpers.Arith.Rounding
import LSHelpers.Json.Getters
import Mathlib.Data.Rat.Floor

/-!
# Numbers and the scalar parse functions

A JSON number, or a string read as one, is converted by pbnjson into an `int32_t`, an
`int64_t` or a `double`, with flags for what was lost; `Conversions` collects these
calls. The narrower integers go through a wider local and a range check, the types
pbnjson converts to are converted straight into the destination.
-/

namespace LSHelpers

open JsonParser

/-- The bits of `pbnjson::ConversionResultFlags`; `other` stands for those the code has no
name for. -/
structure ConversionResultFlags where
  positiveOverflow : Bool := false
  negativeOverflow : Bool := false
  precisionLoss : Bool := false
  notANum : Bool := false
  other : Bool := false
deriving DecidableEq, Repr

/-- `CONV_OK`. -/
def ConversionResultFlags.ok : ConversionResultFlags := {}

/-- The values of a `double` that the code tells apart. -/
inductive Double
  | finite (q : Rat)
  | infinity (negative : Bool)
  | nan
deriving DecidableEq, Repr

namespace Double

def lt (x : Double) (b : Rat) : Bool :=
  match x with
  | .finite q => decide (q < b)
  | .infinity negative => negative
  | .nan => false

def gt (x : Double) (b : Rat) : Bool :=
  match x with
  | .finite q => decide (q > b)
  | .infinity negative => !negative
  | .nan => false

/-- `std::modf`: whether the fraction is not zero, and the integral part. -/
def modf : Double → Bool × Double
  | .finite q =>
      let int : Int := if q < 0 then ⌈q⌉ else ⌊q⌋
      (decide (q ≠ int), .finite int)
  | .infinity negative => (false, .infinity negative)
  | .nan => (true, .nan)

end Double

/-- What `asNumber` is called on: a JSON number, or a `NumericString`. -/
inductive Numeric
  | number (q : Rat)
  | numericString (s : String)
deriving DecidableEq, Repr

/-- The conversions of pbnjson. Each is given what its output argument holds.
`numericValue` is the value of a text read as a number, and `undefinedCast` what a cast to
`uint64_t` yields outside the range of the type, which C++ leaves undefined. -/
structure Conversions where
  numericValue : String → Option Rat
  asInt32 : Numeric → Int32 → ConversionResultFlags × Int32
  asInt64 : Numeric → Int64 → ConversionResultFlags × Int64
  asDouble : Numeric → Double → ConversionResultFlags × Double
  undefinedCast : Double → UInt64

def Conversions.exactValue (pb : Conversions) : Numeric → Option Rat
  | .number q => some q
  | .numericString s => pb.numericValue s

def JValue.numeric? : JValue → Option Numeric
  | .valid (.number q) => some (.number q)
  | .valid (.string s) => some (.numericString s)
  | _ => none

section

variable (pf : Platform) {T W : Type}

def checkConversionResultOrThrow (result : ConversionResultFlags) : Except JsonParseError Unit :=
  if result ≠ .ok then
    if result.positiveOverflow || result.negativeOverflow then
      .error (.ofFormat pf "Integer value out of bounds")
    else if result.notANum then .error (.ofFormat pf "Integer value not a number")
    else if result.precisionLoss then
      .error (.ofFormat pf "Integer requested, but fractional value provided")
    else .error (.ofFormat pf "parse failed")
  else .ok ()

/-- `asNumber` over one of the conversions. -/
def asNumber (convert : Numeric → W → ConversionResultFlags × W) (value : JValue)
    (destination : W) : Except JsonParseError ConversionResultFlags × W :=
  match value.numeric? with
  | some x =>
      let r := convert x destination
      (.ok r.1, r.2)
  | none => (.error (.ofFormat pf "not a number"), destination)

/-- A value read into a wider local, checked against the range of the type, and cast. -/
def parseNarrow (convert : Numeric → W → ConversionResultFlags × W) (zero : W) (toInt : W → Int)
    (lo hi : Int) (cast : Int → T) : ParserFunc T := fun value destination =>
  match asNumber pf convert value zero with
  | (.error e, _) => (.error e, destination)
  | (.ok f, val) =>
      let f :=
        if toInt val < lo then { f with negativeOverflow := true }
        else if toInt val > hi then { f with positiveOverflow := true }
        else f
      match checkConversionResultOrThrow pf f with
      | .error e => (.error e, destination)
      | .ok () => (.ok (), cast (toInt val))

/-- A value converted straight into the destination, then checked. -/
def parseDirect (convert : Numeric → T → ConversionResultFlags × T)
    (mask : ConversionResultFlags → ConversionResultFlags) : ParserFunc T :=
  fun value destination =>
    match asNumber pf convert value destination with
    | (.error e, destination) => (.error e, destination)
    | (.ok f, destination) => (checkConversionResultOrThrow pf (mask f), destination)

variable (pb : Conversions)

def parseValueUint8 : ParserFunc UInt8 := parseNarrow pf pb.asInt32 0 Int32.toInt 0 255 UInt8.ofInt

def parseValueInt8 : ParserFunc Int8 :=
  parseNarrow pf pb.asInt32 0 Int32.toInt (-128) 127 Int8.ofInt

def parseValueUint16 : ParserFunc UInt16 :=
  parseNarrow pf pb.asInt32 0 Int32.toInt 0 65535 UInt16.ofInt

def parseValueInt16 : ParserFunc Int16 :=
  parseNarrow pf pb.asInt32 0 Int32.toInt (-32768) 32767 Int16.ofInt

def parseValueInt32 : ParserFunc Int32 := parseDirect pf pb.asInt32 id

def parseValueUint32 : ParserFunc UInt32 :=
  parseNarrow pf pb.asInt64 0 Int64.toInt 0 4294967295 UInt32.ofInt

def parseValueInt64 : ParserFunc Int64 := parseDirect pf pb.asInt64 id

/-- Precision loss is ignored: there may be more fraction digits than a double can hold. -/
def parseValueDouble : ParserFunc Double :=
  parseDirect pf pb.asDouble fun f => { f with precisionLoss := false }

/-- `UINT64_MAX` in a comparison with a `double` is converted to one. -/
def uint64MaxAsDouble : Rat := Rounding.nearest 53 (2 ^ 64 - 1)

/-- What `parseValue<uint64_t>` casts in the end, unless it throws first. -/
def uint64Argument (value : JValue) : Except JsonParseError Double :=
  match asNumber pf pb.asDouble value (.finite 0) with
  | (.error e, _) => .error e
  | (.ok f, val) =>
      let (f, intVal) :=
        if val.lt 0 then ({ f with negativeOverflow := true }, .finite 0)
        else if val.gt uint64MaxAsDouble then ({ f with positiveOverflow := true }, .finite 0)
        else if val.modf.1 then ({ f with precisionLoss := true }, val.modf.2)
        else (f, val.modf.2)
      match checkConversionResultOrThrow pf f with
      | .error e => .error e
      | .ok () => .ok intVal

/-- `static_cast<uint64_t>` of a `double`. -/
def castToUint64 (x : Double) : UInt64 :=
  match x with
  | .finite q => if -1 < q ∧ q < 2 ^ 64 then UInt64.ofNat ⌊q⌋.toNat else pb.undefinedCast x
  | .infinity _ | .nan => pb.undefinedCast x

def parseValueUint64 : ParserFunc UInt64 := fun value destination =>
  match uint64Argument pf pb value with
  | .error e => (.error e, destination)
  | .ok intVal => (.ok (), castToUint64 pb intVal)

end

/-! ## Conversions that behave as documented -/

/-- A number converted to an integer type: clamped to its range or truncated towards zero,
with a flag unless it is exact. -/
def toRange (lo hi : Int) (q : Rat) : ConversionResultFlags × Int :=
  if q < lo then ({ negativeOverflow := true }, lo)
  else if q > hi then ({ positiveOverflow := true }, hi)
  else if q.den = 1 then (.ok, q.num)
  else ({ precisionLoss := true }, if q < 0 then ⌈q⌉ else ⌊q⌋)

/-- Conversions over a reader of texts: integer types are clamped, and an integer becomes the
nearest double. -/
def Conversions.clamping (numericValue : String → Option Rat) : Conversions where
  numericValue := numericValue
  asInt32 x d := convert x d fun q => (toRange (-2147483648) 2147483647 q).map id Int32.ofInt
  asInt64 x d := convert x d fun q =>
    (toRange (-9223372036854775808) 9223372036854775807 q).map id Int64.ofInt
  asDouble x d := convert x d fun q =>
    if q.den = 1 then (.ok, .finite (Rounding.nearestInt 53 q.num))
    else ({ precisionLoss := true }, .finite q)
  undefinedCast _ := 0
where
  convert {N : Type} (x : Numeric) (d : N) (f : Rat → ConversionResultFlags × N) :
      ConversionResultFlags × N :=
    match x with
    | .number q => f q
    | .numericString s =>
        match numericValue s with
        | some q => f q
        | none => ({ notANum := true }, d)

/-! ## The destination of a value that is refused -/

inductive Scalar
  | uint8 | int8 | uint16 | int16 | int32 | uint32 | int64 | uint64 | double | bool | string
deriving Repr, DecidableEq

namespace Scalar

def type : Scalar → Type
  | .uint8 => UInt8
  | .int8 => Int8
  | .uint16 => UInt16
  | .int16 => Int16
  | .int32 => Int32
  | .uint32 => UInt32
  | .int64 => Int64
  | .uint64 => UInt64
  | .double => Double
  | .bool => Bool
  | .string => String

variable (pf : Platform) (pb : Conversions)

def parseValue : (t : Scalar) → ParserFunc t.type
  | .uint8 => parseValueUint8 pf pb
  | .int8 => parseValueInt8 pf pb
  | .uint16 => parseValueUint16 pf pb
  | .int16 => parseValueInt16 pf pb
  | .int32 => parseValueInt32 pf pb
  | .uint32 => parseValueUint32 pf pb
  | .int64 => parseValueInt64 pf pb
  | .uint64 => parseValueUint64 pf pb
  | .double => parseValueDouble pf pb
  | .bool => parseValueBool pf
  | .string => parseValueString pf

/-- pbnjson has stored something else than what the destination held, and flags the
conversion; of the flags of a `double` precision loss does not count. -/
def Overwritten : (t : Scalar) → JValue → t.type → Prop
  | .int32, value, d =>
      ∃ x, value.numeric? = some x ∧ (pb.asInt32 x d).1 ≠ .ok ∧ (pb.asInt32 x d).2 ≠ d
  | .int64, value, d =>
      ∃ x, value.numeric? = some x ∧ (pb.asInt64 x d).1 ≠ .ok ∧ (pb.asInt64 x d).2 ≠ d
  | .double, value, d =>
      ∃ x, value.numeric? = some x ∧ { (pb.asDouble x d).1 with precisionLoss := false } ≠ .ok ∧
        (pb.asDouble x d).2 ≠ d
  | .uint8, _, _ | .int8, _, _ | .uint16, _, _ | .int16, _, _ | .uint32, _, _ | .uint64, _, _
  | .bool, _, _ | .string, _, _ => False

end Scalar

/-- A parse function that throws leaves its destination as it was. -/
def KeepsOnThrow {T : Type} (parserFunc : ParserFunc T) (value : JValue) (d : T) : Prop :=
  ∀ e, (parserFunc value d).1 = .error e → (parserFunc value d).2 = d

section

variable (pf : Platform) {T W : Type}

theorem checkConversionResultOrThrow_ok_iff (result : ConversionResultFlags) :
    checkConversionResultOrThrow pf result = .ok () ↔ result = .ok := by
  unfold checkConversionResultOrThrow
  split
  · refine iff_of_false ?_ (by assumption)
    split
    · simp
    · split
      · simp
      · split <;> simp
  · rename_i h
    exact iff_of_true rfl (not_not.mp h)

/-- A parse function that throws before it assigns. -/
theorem keepsOnThrow_of_cases {parserFunc : ParserFunc T} {value : JValue} {d : T}
    (h : (∃ e, parserFunc value d = (.error e, d)) ∨ ∃ d', parserFunc value d = (.ok (), d')) :
    KeepsOnThrow parserFunc value d := by
  intro e he
  rcases h with ⟨e', herror⟩ | ⟨d', hok⟩
  · rw [herror]
  · rw [hok] at he
    cases he

theorem parseNarrow_keeps (convert : Numeric → W → ConversionResultFlags × W) (zero : W)
    (toInt : W → Int) (lo hi : Int) (cast : Int → T) (value : JValue) (d : T) :
    KeepsOnThrow (parseNarrow pf convert zero toInt lo hi cast) value d := by
  apply keepsOnThrow_of_cases
  unfold parseNarrow
  split
  · exact .inl ⟨_, rfl⟩
  · dsimp only
    split
    · exact .inl ⟨_, rfl⟩
    · exact .inr ⟨_, rfl⟩

theorem parseValueUint64_keeps (pb : Conversions) (value : JValue) (d : UInt64) :
    KeepsOnThrow (parseValueUint64 pf pb) value d := by
  apply keepsOnThrow_of_cases
  unfold parseValueUint64
  split
  · exact .inl ⟨_, rfl⟩
  · exact .inr ⟨_, rfl⟩

theorem parseValueBool_keeps (value : JValue) (d : Bool) :
    KeepsOnThrow (parseValueBool pf) value d := by
  apply keepsOnThrow_of_cases
  unfold parseValueBool
  split
  · exact .inr ⟨_, rfl⟩
  · exact .inl ⟨_, rfl⟩

theorem parseValueString_keeps (value : JValue) (d : String) :
    KeepsOnThrow (parseValueString pf) value d := by
  apply keepsOnThrow_of_cases
  unfold parseValueString
  split
  · exact .inr ⟨_, rfl⟩
  · exact .inl ⟨_, rfl⟩

theorem parseDirect_keeps_iff (convert : Numeric → T → ConversionResultFlags × T)
    (mask : ConversionResultFlags → ConversionResultFlags) (value : JValue) (d : T) :
    KeepsOnThrow (parseDirect pf convert mask) value d ↔
      ¬ ∃ x, value.numeric? = some x ∧ mask (convert x d).1 ≠ .ok ∧ (convert x d).2 ≠ d := by
  unfold KeepsOnThrow parseDirect asNumber
  cases value.numeric? with
  | none => simp
  | some x =>
      have hcheck := checkConversionResultOrThrow_ok_iff pf (mask (convert x d).1)
      constructor
      · intro h hover
        rcases hover with ⟨y, hy, hflags, hne⟩
        obtain rfl := Option.some.inj hy
        rw [← hcheck.ne] at hflags
        cases hresult : checkConversionResultOrThrow pf (mask (convert x d).1) with
        | ok u => exact hflags hresult
        | error e => exact hne (h e hresult)
      · intro h e hresult
        by_contra hne
        refine h ⟨x, rfl, ?_, hne⟩
        intro hok
        have herror : checkConversionResultOrThrow pf (mask (convert x d).1) = .error e := hresult
        rw [hcheck.mpr hok] at herror
        cases herror

theorem toRange_ok_iff (lo hi : Int) (q : Rat) :
    (toRange lo hi q).1 = .ok ↔ lo ≤ q ∧ q ≤ hi ∧ q.den = 1 := by
  unfold toRange
  by_cases hlo : q < lo
  · rw [if_pos hlo]
    exact iff_of_false (by simp [ConversionResultFlags.ok]) fun h => absurd hlo (not_lt.mpr h.1)
  · by_cases hhi : q > hi
    · rw [if_neg hlo, if_pos hhi]
      exact iff_of_false (by simp [ConversionResultFlags.ok]) fun h => absurd hhi (not_lt.mpr h.2.1)
    · rw [if_neg hlo, if_neg hhi]
      split
      · rename_i hden
        exact iff_of_true rfl ⟨not_lt.mp hlo, not_lt.mp hhi, hden⟩
      · rename_i hden
        exact iff_of_false (by simp [ConversionResultFlags.ok]) fun h => hden h.2.2

/-- Where the conversion clamps, a number that is no integer of the type takes the place of
what the destination held, unless it is clamped or truncated to just that. -/
theorem parseDirect_clamped_keeps_iff {convert : Numeric → T → ConversionResultFlags × T}
    {lo hi : Int} {cast : Int → T} {q : Rat} {d : T}
    (h : convert (.number q) d = (toRange lo hi q).map id cast) :
    KeepsOnThrow (parseDirect pf convert id) (.valid (.number q)) d ↔
      (lo ≤ q ∧ q ≤ hi ∧ q.den = 1) ∨ cast (toRange lo hi q).2 = d := by
  rw [parseDirect_keeps_iff, ← toRange_ok_iff, ← not_iff_not, not_not, not_or]
  constructor
  · intro hover
    rcases hover with ⟨x, hx, hflags, hne⟩
    obtain rfl := Option.some.inj hx
    rw [h] at hflags hne
    exact ⟨hflags, hne⟩
  · intro hover
    exact ⟨.number q, rfl, by rw [h]; exact hover.1, by rw [h]; exact hover.2⟩

theorem parseValueInt32_clamping_keeps_iff (numericValue : String → Option Rat) (q : Rat)
    (d : Int32) :
    KeepsOnThrow (parseValueInt32 pf (.clamping numericValue)) (.valid (.number q)) d ↔
      (((-2147483648 : Int) : Rat) ≤ q ∧ q ≤ (2147483647 : Int) ∧ q.den = 1) ∨
        Int32.ofInt (toRange (-2147483648) 2147483647 q).2 = d :=
  parseDirect_clamped_keeps_iff pf rfl

theorem parseValueInt64_clamping_keeps_iff (numericValue : String → Option Rat) (q : Rat)
    (d : Int64) :
    KeepsOnThrow (parseValueInt64 pf (.clamping numericValue)) (.valid (.number q)) d ↔
      (((-9223372036854775808 : Int) : Rat) ≤ q ∧ q ≤ (9223372036854775807 : Int) ∧ q.den = 1) ∨
        Int64.ofInt (toRange (-9223372036854775808) 9223372036854775807 q).2 = d :=
  parseDirect_clamped_keeps_iff pf rfl

/-- The destination survives a refused value of every scalar type exactly when it is not
overwritten on the way. -/
theorem keepsOnThrow_iff (pb : Conversions) (t : Scalar) (value : JValue) (d : t.type) :
    KeepsOnThrow (t.parseValue pf pb) value d ↔ ¬ t.Overwritten pb value d := by
  cases t with
  | int32 | int64 | double => exact parseDirect_keeps_iff pf _ _ value d
  | uint8 | int8 | uint16 | int16 | uint32 =>
      exact iff_of_true (parseNarrow_keeps pf _ _ _ _ _ _ value d) not_false
  | uint64 => exact iff_of_true (parseValueUint64_keeps pf pb value d) not_false
  | bool => exact iff_of_true (parseValueBool_keeps pf value d) not_false
  | string => exact iff_of_true (parseValueString_keeps pf value d) not_false

end

/-- The number 3000000000 for an `int32_t`: it is refused, and the destination is clamped. -/
theorem int32_overwritten :
    ¬ KeepsOnThrow (Scalar.int32.parseValue .ofEmptyObject (.clamping fun _ => none))
      (.valid (.number 3000000000)) (5 : Int32) := by
  intro h
  have hdest : (2147483647 : Int32) = 5 :=
    h (.ofFormat .ofEmptyObject "Integer value out of bounds") rfl
  exact absurd hdest (by decide)

end LSHelpers
