import LSHelpers.Json.Requests
import LSHelpers.Transition.LastWrite
import Mathlib.Data.List.Induction

/-!
# Chains of modifiers

A request whose flags are variables of their own, apart from the destination, is a
chain of constraints on the context a getter returns, and each `checkValueRead`
hands out the flag it stores. Some constraints set a flag the destructor looks at,
some check the value at once, and `defaultValue` writes the destination; what a
whole chain leaves is said by the last flags it sets and by the checks in it.
-/

namespace LSHelpers

open Transition

variable {T : Type}

inductive Constraint (T : Type)
  | optional (isOptional : Bool)
  | allowNull (isAllowed : Bool)
  | checkValueRead
  | defaultValue (value : T)
  | min [LT T] [DecidableLT T] (value : T)
  | max [LT T] [DecidableLT T] (value : T)
  | allowedValues [BEq T] (values : List T)

namespace Constraint

def apply (k : Constraint T) (s : JsonParseContext T × List Bool) :
    JsonParseContext T × List Bool :=
  match k with
  | .optional isOptional => (s.1.optional isOptional, s.2)
  | .allowNull isAllowed => (s.1.allowNull isAllowed, s.2)
  | .checkValueRead => (s.1, s.2 ++ [s.1.checkValueRead])
  | .defaultValue value => (s.1.defaultValue value, s.2)
  | @Constraint.min _ _ _ value => (s.1.min value, s.2)
  | @Constraint.max _ _ _ value => (s.1.max value, s.2)
  | @Constraint.allowedValues _ _ values => (s.1.allowedValues values, s.2)

def optional? : Constraint T → Option Bool
  | .optional isOptional => some isOptional
  | _ => none

def allowNull? : Constraint T → Option Bool
  | .allowNull isAllowed => some isAllowed
  | _ => none

def default? : Constraint T → Option T
  | .defaultValue value => some value
  | _ => none

def isFlag : Constraint T → Bool
  | .checkValueRead => true
  | _ => false

/-- The value is refused by `min`, `max` or `allowedValues`. -/
def refuses (k : Constraint T) (d : T) : Bool :=
  match k with
  | @Constraint.min _ _ _ value => decide (d < value)
  | @Constraint.max _ _ _ value => decide (d > value)
  | @Constraint.allowedValues _ _ values => !values.any fun value => value == d
  | _ => false

end Constraint

/-- The last `optional` of the chain, `false` where there is none. -/
def isOptional (chain : List (Constraint T)) : Bool := lastWrite Constraint.optional? false chain

/-- The last `allowNull` of the chain, `false` where there is none. -/
def allowsNull (chain : List (Constraint T)) : Bool := lastWrite Constraint.allowNull? false chain

/-- The last default of the chain, or what the destination held. -/
def defaulted (chain : List (Constraint T)) (d : T) : T := lastWrite Constraint.default? d chain

/-- What a request leaves: the parser, the destination and the flags in order. -/
structure FieldResult (T : Type) where
  parser : JsonParser
  destination : T
  flags : List Bool

namespace JsonParseContext

/-- The context after the chain, with the flags stored on the way. -/
def chained (c : JsonParseContext T) (chain : List (Constraint T)) :
    JsonParseContext T × List Bool :=
  chain.foldl (fun s k => k.apply s) (c, [])

/-- The chain and the destructor at the end of the expression. -/
def finish (c : JsonParseContext T) (chain : List (Constraint T)) : FieldResult T :=
  let s := c.chained chain
  let r := s.1.finishParse
  ⟨r.1, r.2, s.2⟩

end JsonParseContext

/-! ## What one constraint leaves -/

namespace Constraint

/-- A constraint sets its flag of the context, or stores its default where no value was
read, or records an error where a value was read and it refuses the value. -/
theorem apply_eq (k : Constraint T) (c : JsonParseContext T) (flags : List Bool) :
    ∃ message, k.apply (c, flags) =
      ({ c with
          parser :=
            if c.valueRead && k.refuses c.destination then c.parser.recordError c.fieldName message
            else c.parser
          destination := if c.valueRead then c.destination else k.default?.getD c.destination
          optionalFlag := k.optional?.getD c.optionalFlag
          allowNullFlag := k.allowNull?.getD c.allowNullFlag },
        flags ++ if k.isFlag then [c.valueRead] else []) := by
  rcases c with ⟨p, fieldName, d, valueRead, valueNull, isOptional, isAllowed⟩
  cases k with
  | optional | allowNull =>
      refine ⟨"", ?_⟩
      cases valueRead <;> simp [apply, refuses, default?, optional?, allowNull?, isFlag,
        JsonParseContext.optional, JsonParseContext.allowNull]
  | checkValueRead =>
      refine ⟨"", ?_⟩
      cases valueRead <;> simp [apply, refuses, default?, optional?, allowNull?, isFlag,
        JsonParseContext.checkValueRead]
  | defaultValue value =>
      refine ⟨"", ?_⟩
      cases valueRead <;> simp [apply, refuses, default?, optional?, allowNull?, isFlag,
        JsonParseContext.defaultValue]
  | min value =>
      refine ⟨"value less than minimum", ?_⟩
      cases valueRead with
      | false => simp [apply, default?, optional?, allowNull?, isFlag, JsonParseContext.min]
      | true =>
          by_cases h : d < value <;> simp [apply, refuses, optional?, allowNull?, isFlag,
            JsonParseContext.min, h]
  | max value =>
      refine ⟨"value greater than maximum", ?_⟩
      cases valueRead with
      | false => simp [apply, default?, optional?, allowNull?, isFlag, JsonParseContext.max]
      | true =>
          by_cases h : d > value <;> simp [apply, refuses, optional?, allowNull?, isFlag,
            JsonParseContext.max, h]
  | allowedValues values =>
      refine ⟨"value not in allowed list", ?_⟩
      cases valueRead with
      | false => simp [apply, default?, optional?, allowNull?, isFlag,
          JsonParseContext.allowedValues]
      | true =>
          cases h : values.any fun value => value == d <;> simp [apply, refuses, optional?,
            allowNull?, isFlag, JsonParseContext.allowedValues, h]

end Constraint

namespace JsonParseContext

/-! ## What a chain leaves -/

/-- `s` is what a chain makes of the context `c`. -/
structure Chained (c : JsonParseContext T) (chain : List (Constraint T))
    (s : JsonParseContext T × List Bool) : Prop where
  parser : JsonParser.After c.parser s.1.parser 0
    (c.valueRead = true → ∀ k ∈ chain, k.refuses c.destination = false)
  fieldName : s.1.fieldName = c.fieldName
  destination : s.1.destination =
    if c.valueRead then c.destination else defaulted chain c.destination
  valueRead : s.1.valueRead = c.valueRead
  valueNull : s.1.valueNull = c.valueNull
  optionalFlag : s.1.optionalFlag = lastWrite Constraint.optional? c.optionalFlag chain
  allowNullFlag : s.1.allowNullFlag = lastWrite Constraint.allowNull? c.allowNullFlag chain
  flags : s.2 = List.replicate (chain.countP Constraint.isFlag) c.valueRead

/-- By induction on the chain from its end, as the flags are appended. -/
theorem chained_spec (c : JsonParseContext T) (chain : List (Constraint T)) :
    Chained c chain (c.chained chain) := by
  induction chain using List.reverseRecOn with
  | nil => exact ⟨(JsonParser.After.refl _).congr rfl (by simp), rfl, by simp [chained, defaulted],
      rfl, rfl, rfl, rfl, rfl⟩
  | append_singleton chain k ih =>
      have hstep : c.chained (chain ++ [k]) = k.apply (c.chained chain) := by
        simp [chained, List.foldl_append]
      rcases k.apply_eq (c.chained chain).1 (c.chained chain).2 with ⟨message, happly⟩
      rw [hstep, happly]
      refine ⟨?_, ih.fieldName, ?_, ih.valueRead, ih.valueNull, ?_, ?_, ?_⟩
      · rw [ih.valueRead, ih.destination]
        cases hread : c.valueRead with
        | false => simpa [hread] using ih.parser
        | true =>
            cases hrefuse : k.refuses c.destination with
            | false => simpa [hread, hrefuse, or_imp, forall_and] using ih.parser
            | true =>
                have hrecord := ih.parser.trans
                  (.recordError (c.chained chain).1.parser (c.chained chain).1.fieldName message)
                simpa [hrefuse, or_imp, forall_and] using hrecord
      · rw [ih.valueRead, ih.destination]
        cases hread : c.valueRead with
        | false => simp [defaulted, lastWrite_append]
        | true => simp
      · rw [ih.optionalFlag, lastWrite_append]
        rfl
      · rw [ih.allowNullFlag, lastWrite_append]
        rfl
      · rw [ih.flags, ih.valueRead]
        cases hflag : k.isFlag with
        | false => simp [List.countP_append, hflag]
        | true => simp [List.countP_append, hflag, List.replicate_succ']

/-- What becomes of the context does not depend on the flags stored so far. -/
theorem foldl_apply_fst (chain : List (Constraint T)) (c : JsonParseContext T)
    (flags flags' : List Bool) :
    (chain.foldl (fun s k => k.apply s) (c, flags)).1 =
      (chain.foldl (fun s k => k.apply s) (c, flags')).1 := by
  induction chain generalizing c flags flags' with
  | nil => rfl
  | cons k chain ih =>
      have hfst : (k.apply (c, flags)).1 = (k.apply (c, flags')).1 := by cases k <;> rfl
      simp only [List.foldl_cons]
      rw [← Prod.mk.eta (p := k.apply (c, flags)), hfst]
      exact ih _ _ _

theorem chained_append (c : JsonParseContext T) (before after : List (Constraint T)) :
    (c.chained (before ++ after)).1 = ((c.chained before).1.chained after).1 := by
  rw [chained, List.foldl_append]
  exact foldl_apply_fst after _ _ _

/-- The destructor's verdict on a context. -/
theorem finishParse_after (c : JsonParseContext T) :
    JsonParser.After c.parser c.finishParse.1 0
      (c.valueRead = false →
        c.optionalFlag = true ∧ (c.valueNull = true → c.allowNullFlag = true)) ∧
    c.finishParse.2 = c.destination := by
  rcases c with ⟨p, fieldName, d, valueRead, valueNull, isOptional, isAllowed⟩
  have hkeep := JsonParser.After.refl p
  have hmissing := JsonParser.After.recordError p fieldName "mandatory but not present"
  have hnull := JsonParser.After.recordError p fieldName "null value is not allowed"
  cases valueRead <;> cases isOptional <;> cases valueNull <;> cases isAllowed <;>
    simp_all [finishParse]

/-- What the destructor and the checks of a chain accept. -/
structure Accepts (c : JsonParseContext T) (chain : List (Constraint T)) : Prop where
  value : c.valueRead = true → ∀ k ∈ chain, k.refuses c.destination = false
  present : c.valueRead = false → lastWrite Constraint.optional? c.optionalFlag chain = true
  notNull : c.valueRead = false → c.valueNull = true →
    lastWrite Constraint.allowNull? c.allowNullFlag chain = true

theorem finish_after (c : JsonParseContext T) (chain : List (Constraint T)) :
    JsonParser.After c.parser (c.finish chain).parser 0 (c.Accepts chain) := by
  have hchain := chained_spec c chain
  have hfinish := (finishParse_after (c.chained chain).1).1
  rw [hchain.valueRead, hchain.valueNull, hchain.optionalFlag, hchain.allowNullFlag] at hfinish
  refine (hchain.parser.trans hfinish).congr rfl ?_
  constructor
  · intro h
    exact ⟨h.1, fun hread => (h.2 hread).1, fun hread => (h.2 hread).2⟩
  · intro h
    exact ⟨h.value, fun hread => ⟨h.present hread, h.notNull hread⟩⟩

theorem finish_destination (c : JsonParseContext T) (chain : List (Constraint T)) :
    (c.finish chain).destination =
      if c.valueRead then c.destination else defaulted chain c.destination := by
  rw [← (chained_spec c chain).destination]
  exact (finishParse_after (c.chained chain).1).2

theorem finish_flags (c : JsonParseContext T) (chain : List (Constraint T)) :
    (c.finish chain).flags = List.replicate (chain.countP Constraint.isFlag) c.valueRead :=
  (chained_spec c chain).flags

end JsonParseContext

/-! ## Requests whose flags are apart from the destination -/

section Requests

variable {Var : Type} {Ty : Var → Type}

/-- The modifier without the variable its flag goes to. -/
def Modifier.constraint : Modifier Ty T → Constraint T
  | .optional isOptional => .optional isOptional
  | .allowNull isAllowed => .allowNull isAllowed
  | .checkValueRead _ => .checkValueRead
  | .defaultValue value => .defaultValue value
  | @Modifier.min _ _ _ _ _ value => .min value
  | @Modifier.max _ _ _ _ _ value => .max value
  | @Modifier.allowedValues _ _ _ _ values => .allowedValues values

variable [DecidableEq Var] {v : Var}

theorem Modifier.apply_constraint (modifier : Modifier Ty (Ty v))
    (happart : ∀ flag ∈ modifier.flag?, flag.var ≠ v) (c : JsonParseContext (Ty v))
    (m : Memory Ty) (flags : List Bool) :
    modifier.apply (c, m) =
      ((modifier.constraint.apply (c, flags)).1, m.setFlags modifier.flag?.toList c.valueRead) := by
  cases modifier with
  | checkValueRead flag =>
      have hne : flag.var ≠ v := happart flag rfl
      simp only [apply, JsonParseContext.storeFlag, hne, dif_neg, not_false_eq_true]
      rfl
  | optional | allowNull | defaultValue | min | max | allowedValues => rfl

/-- By induction on the chain, each modifier by its constraint. -/
theorem modifiers_chained (modifiers : List (Modifier Ty (Ty v)))
    (happart : ∀ flag ∈ modifiers.filterMap Modifier.flag?, flag.var ≠ v)
    (c : JsonParseContext (Ty v)) (m : Memory Ty) (flags : List Bool) :
    modifiers.foldl (fun s modifier => modifier.apply s) (c, m) =
      (((modifiers.map Modifier.constraint).foldl (fun s k => k.apply s) (c, flags)).1,
        m.setFlags (modifiers.filterMap Modifier.flag?) c.valueRead) := by
  induction modifiers generalizing c m flags with
  | nil => rfl
  | cons modifier modifiers ih =>
      have hflags : (modifier :: modifiers).filterMap Modifier.flag? =
          modifier.flag?.toList ++ modifiers.filterMap Modifier.flag? := by
        cases hflag : modifier.flag? <;> simp [hflag]
      rw [hflags] at happart ⊢
      rcases modifier.constraint.apply_eq c flags with ⟨message, happly⟩
      have hread : (modifier.constraint.apply (c, flags)).1.valueRead = c.valueRead := by
        rw [happly]
      rw [List.foldl_cons, List.map_cons, List.foldl_cons, modifier.apply_constraint
        (fun flag hflag => happart flag (List.mem_append_left _ (by simpa using hflag))) c m flags]
      rw [ih (fun flag hflag => happart flag (List.mem_append_right _ hflag)) _ _
        (modifier.constraint.apply (c, flags)).2, hread]
      simp only [Memory.setFlags, List.foldl_append, Prod.mk.eta]

/-- A request is the chain on its own destination, with the flags stored beside it. -/
theorem Request.run_eq_finish (pf : Platform) (q : Request Ty) (p : JsonParser) (m : Memory Ty)
    (happart : ∀ flag ∈ q.flags, flag.var ≠ q.destination) :
    let c := q.getter.context pf p q.name (m q.destination)
    let r := c.finish (q.modifiers.map Modifier.constraint)
    q.run pf (p, m) =
      (r.parser, Function.update (m.setFlags q.flags c.valueRead) q.destination r.destination) := by
  dsimp only [Request.run]
  rw [modifiers_chained q.modifiers happart _ m []]
  rfl

end Requests

end LSHelpers
