import LSHelpers.Json.Numbers

/-!
# Integers of every width

A narrow integer is read through a wider one, whose own conversion may overflow or lose a
fraction before the range is checked. Whatever it stores then, the flags of the two stages
together accept the integers of the narrow type and nothing else.
-/

namespace LSHelpers

section

variable {T W : Type}

/-- A conversion as it is documented: it is `CONV_OK` for the integers in the range and for
nothing else, and stores them. What it stores otherwise is left open. -/
structure Converts (exact : Numeric → Option Rat)
    (convert : Numeric → W → ConversionResultFlags × W) (toInt : W → Int) (lo hi : Int) :
    Prop where
  ok_iff : ∀ x d, (convert x d).1 = .ok ↔ ∃ n : Int, exact x = some (n : Rat) ∧ lo ≤ n ∧ n ≤ hi
  stored : ∀ x d (n : Int), exact x = some (n : Rat) → lo ≤ n → n ≤ hi → toInt (convert x d).2 = n

/-- The exact value of a JSON value, `none` where it is not a number. -/
def JValue.rational? (exact : Numeric → Option Rat) (value : JValue) : Option Rat :=
  value.numeric?.bind exact

/-- The function succeeds on the integers in the range and on nothing else, and stores them. -/
structure ParsesIntegers (exact : Numeric → Option Rat) (parserFunc : ParserFunc T)
    (toInt : T → Int) (lo hi : Int) : Prop where
  ok_iff : ∀ value d, (parserFunc value d).1 = .ok () ↔
    ∃ n : Int, value.rational? exact = some (n : Rat) ∧ lo ≤ n ∧ n ≤ hi
  stored : ∀ value d q, value.rational? exact = some q → (parserFunc value d).1 = .ok () →
    (toInt (parserFunc value d).2 : Rat) = q

/-- It is enough to say what is stored for each integer. -/
theorem ParsesIntegers.of_cases {exact : Numeric → Option Rat} {parserFunc : ParserFunc T}
    {toInt : T → Int} {lo hi : Int}
    (hnone : ∀ value d, value.numeric? = none → (parserFunc value d).1 ≠ .ok ())
    (hok : ∀ value x d, value.numeric? = some x → ((parserFunc value d).1 = .ok () ↔
      ∃ n : Int, exact x = some (n : Rat) ∧ lo ≤ n ∧ n ≤ hi))
    (hstored : ∀ value x d (n : Int), value.numeric? = some x → exact x = some (n : Rat) →
      lo ≤ n → n ≤ hi → toInt (parserFunc value d).2 = n) :
    ParsesIntegers exact parserFunc toInt lo hi := by
  have hiff : ∀ value d, (parserFunc value d).1 = .ok () ↔
      ∃ n : Int, value.rational? exact = some (n : Rat) ∧ lo ≤ n ∧ n ≤ hi := by
    intro value d
    unfold JValue.rational?
    cases hnumeric : value.numeric? with
    | none => exact iff_of_false (hnone value d hnumeric) (by simp)
    | some x => exact hok value x d hnumeric
  refine ⟨hiff, ?_⟩
  intro value d q hq hparsed
  rcases (hiff value d).mp hparsed with ⟨n, hn, hlo, hhi⟩
  obtain rfl := Option.some.inj (hn.symm.trans hq)
  rcases Option.bind_eq_some_iff.mp hn with ⟨x, hx, hexact⟩
  rw [hstored value x d n hx hexact hlo hhi]

variable (pf : Platform)

theorem parseDirect_integers {exact : Numeric → Option Rat}
    {convert : Numeric → T → ConversionResultFlags × T} {toInt : T → Int} {lo hi : Int}
    (h : Converts exact convert toInt lo hi) :
    ParsesIntegers exact (parseDirect pf convert id) toInt lo hi := by
  apply ParsesIntegers.of_cases
  · intro value d hnumeric
    simp [parseDirect, asNumber, hnumeric]
  · intro value x d hnumeric
    rw [← h.ok_iff x d, ← checkConversionResultOrThrow_ok_iff pf]
    simp [parseDirect, asNumber, hnumeric]
  · intro value x d n hnumeric hexact hlo hhi
    rw [← h.stored x d n hexact hlo hhi]
    simp [parseDirect, asNumber, hnumeric]

/-- The range of the wider type has the narrow one in it, and the cast keeps the latter. -/
theorem parseNarrow_integers {exact : Numeric → Option Rat}
    {convert : Numeric → W → ConversionResultFlags × W} {zero : W} {toInt : W → Int}
    {wideLo wideHi lo hi : Int} {cast : Int → T} {back : T → Int}
    (h : Converts exact convert toInt wideLo wideHi) (hlo : wideLo ≤ lo) (hhi : hi ≤ wideHi)
    (hcast : ∀ n, lo ≤ n → n ≤ hi → back (cast n) = n) :
    ParsesIntegers exact (parseNarrow pf convert zero toInt lo hi cast) back lo hi := by
  -- an integer of the narrow range passes both stages
  have hpasses : ∀ value x d (n : Int), value.numeric? = some x → exact x = some (n : Rat) →
      lo ≤ n → n ≤ hi →
      parseNarrow pf convert zero toInt lo hi cast value d = (.ok (), cast n) := by
    intro value x d n hnumeric hexact hn hn'
    have hok := (h.ok_iff x zero).mpr ⟨n, hexact, hlo.trans hn, hn'.trans hhi⟩
    have hval := h.stored x zero n hexact (hlo.trans hn) (hn'.trans hhi)
    simp [parseNarrow, asNumber, hnumeric, hok, hval, not_lt.mpr hn, not_lt.mpr hn',
      (checkConversionResultOrThrow_ok_iff pf .ok).mpr rfl]
  apply ParsesIntegers.of_cases
  · intro value d hnumeric
    simp [parseNarrow, asNumber, hnumeric]
  · intro value x d hnumeric
    constructor
    · intro hparsed
      unfold parseNarrow asNumber at hparsed
      rw [hnumeric] at hparsed
      dsimp only at hparsed
      split at hparsed
      · cases hparsed
      · next hcheck =>
          rw [checkConversionResultOrThrow_ok_iff] at hcheck
          have hbelow : ¬ toInt (convert x zero).2 < lo := by
            intro hlt
            simp [hlt, ConversionResultFlags.ok] at hcheck
          have habove : ¬ toInt (convert x zero).2 > hi := by
            intro hgt
            simp [hbelow, hgt, ConversionResultFlags.ok] at hcheck
          rw [if_neg hbelow, if_neg habove] at hcheck
          rcases (h.ok_iff x zero).mp hcheck with ⟨n, hexact, hn, hn'⟩
          rw [h.stored x zero n hexact hn hn'] at hbelow habove
          exact ⟨n, hexact, not_lt.mp hbelow, not_lt.mp habove⟩
    · intro hinteger
      rcases hinteger with ⟨n, hexact, hn, hn'⟩
      rw [hpasses value x d n hnumeric hexact hn hn']
  · intro value x d n hnumeric hexact hn hn'
    rw [hpasses value x d n hnumeric hexact hn hn']
    exact hcast n hn hn'

end

/-! ## The types -/

/-- The integer types but `uint64_t`, which is read through a `double`. -/
inductive IntegerType
  | uint8 | int8 | uint16 | int16 | int32 | uint32 | int64
deriving Repr, DecidableEq

namespace IntegerType

def scalar : IntegerType → Scalar
  | .uint8 => .uint8
  | .int8 => .int8
  | .uint16 => .uint16
  | .int16 => .int16
  | .int32 => .int32
  | .uint32 => .uint32
  | .int64 => .int64

def lo : IntegerType → Int
  | .uint8 | .uint16 | .uint32 => 0
  | .int8 => -128
  | .int16 => -32768
  | .int32 => -2147483648
  | .int64 => -9223372036854775808

def hi : IntegerType → Int
  | .uint8 => 255
  | .int8 => 127
  | .uint16 => 65535
  | .int16 => 32767
  | .int32 => 2147483647
  | .uint32 => 4294967295
  | .int64 => 9223372036854775807

def toInt : (t : IntegerType) → t.scalar.type → Int
  | .uint8 => fun v => UInt8.toNat v
  | .int8 => Int8.toInt
  | .uint16 => fun v => UInt16.toNat v
  | .int16 => Int16.toInt
  | .int32 => Int32.toInt
  | .uint32 => fun v => UInt32.toNat v
  | .int64 => Int64.toInt

end IntegerType

/-- What the code relies on of pbnjson. -/
structure Conversions.Documented (pb : Conversions) : Prop where
  int32 : Converts pb.exactValue pb.asInt32 Int32.toInt (-2147483648) 2147483647
  int64 : Converts pb.exactValue pb.asInt64 Int64.toInt (-9223372036854775808) 9223372036854775807

section

variable (pf : Platform) {pb : Conversions}

theorem parseValue_parsesIntegers (h : pb.Documented) (t : IntegerType) :
    ParsesIntegers pb.exactValue (t.scalar.parseValue pf pb) t.toInt t.lo t.hi := by
  cases t with
  | uint8 =>
      refine parseNarrow_integers pf h.int32 (by decide) (by decide) ?_
      intro n hn hn'
      simp [IntegerType.toInt, UInt8.ofInt]
      omega
  | int8 =>
      refine parseNarrow_integers pf h.int32 (by decide) (by decide) ?_
      intro n hn hn'
      exact Int8.toInt_ofInt_of_le hn (Int.lt_add_one_of_le hn')
  | uint16 =>
      refine parseNarrow_integers pf h.int32 (by decide) (by decide) ?_
      intro n hn hn'
      simp [IntegerType.toInt, UInt16.ofInt]
      omega
  | int16 =>
      refine parseNarrow_integers pf h.int32 (by decide) (by decide) ?_
      intro n hn hn'
      exact Int16.toInt_ofInt_of_le hn (Int.lt_add_one_of_le hn')
  | int32 => exact parseDirect_integers pf h.int32
  | uint32 =>
      refine parseNarrow_integers pf h.int64 (by decide) (by decide) ?_
      intro n hn hn'
      simp [IntegerType.toInt, UInt32.ofInt]
      omega
  | int64 => exact parseDirect_integers pf h.int64

/-- Every integer type accepts the integers of its range and stores them, so two types that
accept a value store the same. -/
theorem parseValue_integers (h : pb.Documented) (t : IntegerType) (value : JValue)
    (d : t.scalar.type) :
    let r := t.scalar.parseValue pf pb value d
    (r.1 = .ok () ↔
      ∃ n : Int, value.rational? pb.exactValue = some (n : Rat) ∧ t.lo ≤ n ∧ n ≤ t.hi) ∧
    (r.1 = .ok () → ∀ q, value.rational? pb.exactValue = some q → (t.toInt r.2 : Rat) = q) ∧
    ∀ (t' : IntegerType) (d' : t'.scalar.type),
      let r' := t'.scalar.parseValue pf pb value d'
      r.1 = .ok () → r'.1 = .ok () → t.toInt r.2 = t'.toInt r'.2 := by
  have hparses := parseValue_parsesIntegers pf h t
  refine ⟨hparses.ok_iff value d, fun hok q hq => hparses.stored value d q hq hok, ?_⟩
  intro t' d' r' hok hok'
  rcases (hparses.ok_iff value d).mp hok with ⟨n, hn, _⟩
  have heq := hparses.stored value d n hn hok
  have heq' := (parseValue_parsesIntegers pf h t').stored value d' n hn hok'
  exact_mod_cast heq.trans heq'.symm

end

/-! ## Conversions that clamp -/

theorem converts_toRange {W : Type} {numericValue : String → Option Rat} {lo hi : Int}
    {cast : Int → W} {toInt : W → Int} (hcast : ∀ n, lo ≤ n → n ≤ hi → toInt (cast n) = n) :
    Converts (Conversions.clamping numericValue).exactValue
      (fun x d => Conversions.clamping.convert numericValue x d fun q =>
        (toRange lo hi q).map id cast) toInt lo hi := by
  have hrange (q : Rat) : (toRange lo hi q).1 = .ok ↔
      ∃ n : Int, q = (n : Rat) ∧ lo ≤ n ∧ n ≤ hi := by
    rw [toRange_ok_iff]
    constructor
    · intro h
      rcases h with ⟨hlo, hhi, hden⟩
      have hq : q = (q.num : Rat) := (Rat.den_eq_one_iff q).mp hden |>.symm
      rw [hq] at hlo hhi
      exact ⟨q.num, hq, by exact_mod_cast hlo, by exact_mod_cast hhi⟩
    · intro h
      rcases h with ⟨n, rfl, hlo, hhi⟩
      exact ⟨by exact_mod_cast hlo, by exact_mod_cast hhi, Rat.den_intCast n⟩
  have hstored (n : Int) (hlo : lo ≤ n) (hhi : n ≤ hi) : (toRange lo hi (n : Rat)).2 = n := by
    have hlo' : ¬ (n : Rat) < lo := by exact_mod_cast not_lt.mpr hlo
    have hhi' : ¬ (n : Rat) > hi := by exact_mod_cast not_lt.mpr hhi
    rw [toRange, if_neg hlo', if_neg hhi', if_pos (Rat.den_intCast n)]
    exact Rat.num_intCast n
  constructor
  · intro x d
    cases x with
    | number q => simpa [Conversions.clamping.convert, Conversions.exactValue] using hrange q
    | numericString s =>
        cases hread : numericValue s with
        | none =>
            simp [Conversions.clamping.convert, Conversions.exactValue, Conversions.clamping, hread,
              ConversionResultFlags.ok]
        | some q =>
            simpa [Conversions.clamping.convert, Conversions.exactValue, Conversions.clamping,
              hread] using hrange q
  · intro x d n hexact hlo hhi
    cases x with
    | number q =>
        obtain rfl := Option.some.inj hexact
        simp [Conversions.clamping.convert, hstored n hlo hhi, hcast n hlo hhi]
    | numericString s =>
        have hread : numericValue s = some (n : Rat) := hexact
        simp [Conversions.clamping.convert, hread, hstored n hlo hhi, hcast n hlo hhi]

theorem clamping_documented (numericValue : String → Option Rat) :
    (Conversions.clamping numericValue).Documented where
  int32 := converts_toRange fun _ hlo hhi =>
    Int32.toInt_ofInt_of_le hlo (Int.lt_add_one_of_le hhi)
  int64 := converts_toRange fun _ hlo hhi =>
    Int64.toInt_ofInt_of_le hlo (Int.lt_add_one_of_le hhi)

/-- The text `-1` as an `int8_t`. -/
theorem parseValue_integers_text :
    let pb := Conversions.clamping fun s => if s = "-1" then some (-1) else none
    let r := IntegerType.int8.scalar.parseValue .ofEmptyObject pb (.valid (.string "-1")) (5 : Int8)
    r.1 = .ok () ∧ IntegerType.int8.toInt r.2 = -1 := by
  intro pb r
  have hvalue : (JValue.valid (.string "-1")).rational? pb.exactValue = some ((-1 : Int) : Rat) :=
    rfl
  rcases parseValue_integers .ofEmptyObject (clamping_documented _) .int8 (.valid (.string "-1"))
    (5 : Int8) with ⟨hiff, hstored, _⟩
  have hok : r.1 = .ok () := hiff.mpr ⟨-1, hvalue, by decide, by decide⟩
  exact ⟨hok, by exact_mod_cast hstored hok _ hvalue⟩

end LSHelpers
