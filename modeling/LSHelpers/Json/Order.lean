import LSHelpers.Json.Reading

/-!
# `get` with the modifiers in any order

A chain in which `optional`, `allowNull` and `defaultValue` occur at most once is
read as a set of constraints: what the request accepts and what it leaves is said by
membership in the chain, so its order does not matter.
-/

namespace LSHelpers

open Transition

variable {T : Type}

/-- `min`, `max`, `allowedValues` and `checkValueRead` are not limited. -/
structure AtMostOnce (chain : List (Constraint T)) : Prop where
  optional : (chain.filterMap Constraint.optional?).length ≤ 1
  allowNull : (chain.filterMap Constraint.allowNull?).length ≤ 1
  defaultValue : (chain.filterMap Constraint.default?).length ≤ 1

theorem AtMostOnce.perm {chain chain' : List (Constraint T)} (h : AtMostOnce chain)
    (hperm : chain.Perm chain') : AtMostOnce chain' where
  optional := (hperm.filterMap Constraint.optional?).length_eq ▸ h.optional
  allowNull := (hperm.filterMap Constraint.allowNull?).length_eq ▸ h.allowNull
  defaultValue := (hperm.filterMap Constraint.default?).length_eq ▸ h.defaultValue

theorem isOptional_iff {chain : List (Constraint T)} (honce : AtMostOnce chain) :
    isOptional chain = true ↔ .optional true ∈ chain := by
  constructor
  · intro h
    rcases lastWrite_eq_true h with ⟨k, hk, hwrite⟩
    cases k <;> simp_all [Constraint.optional?]
  · intro h
    exact lastWrite_of_mem honce.optional h rfl false

theorem allowsNull_iff {chain : List (Constraint T)} (honce : AtMostOnce chain) :
    allowsNull chain = true ↔ .allowNull true ∈ chain := by
  constructor
  · intro h
    rcases lastWrite_eq_true h with ⟨k, hk, hwrite⟩
    cases k <;> simp_all [Constraint.allowNull?]
  · intro h
    exact lastWrite_of_mem honce.allowNull h rfl false

/-- The field is there, is not null, and the parse function makes `d'` of it. -/
def Decodes (parserFunc : ParserFunc T) (field : Option Json) (d d' : T) : Prop :=
  ∃ x, field = some x ∧ x ≠ .null ∧ parserFunc (.valid x) d = (.ok (), d')

/-- Why a request by `get` is refused. -/
inductive Refused (parserFunc : ParserFunc T) (field : Option Json) (d : T)
    (chain : List (Constraint T)) : Prop
  | absent (field_none : field = none) (mandatory : .optional true ∉ chain)
  | null (field_null : field = some .null)
      (notAllowed : ¬ (.optional true ∈ chain ∧ .allowNull true ∈ chain))
  | undecodable {x : Json} (field_some : field = some x) (not_null : x ≠ .null)
      (fails : ∀ d', parserFunc (.valid x) d ≠ (.ok (), d'))
  | value {d' : T} (decodes : Decodes parserFunc field d d') {k : Constraint T} (mem : k ∈ chain)
      (refuses : k.refuses d' = true)

variable (pf : Platform) (parserFunc : ParserFunc T)

/-- Refusal depends on which constraints the chain has. -/
theorem Refused.of_mem {field : Option Json} {d : T} {chain chain' : List (Constraint T)}
    (h : Refused parserFunc field d chain') (hmem : ∀ k, k ∈ chain ↔ k ∈ chain') :
    Refused parserFunc field d chain := by
  cases h with
  | absent hnone hmandatory => exact .absent hnone (by rwa [hmem])
  | null hnull hnot => exact .null hnull (by rwa [hmem, hmem])
  | undecodable hsome hx hfails => exact .undecodable hsome hx hfails
  | value hdecodes hk hrefuses => exact .value hdecodes ((hmem _).mpr hk) hrefuses

theorem reading_of_decodes {field : Option Json} {d d' : T} (h : Decodes parserFunc field d d') :
    (Getter.get parserFunc).reading pf field d = .value d' := by
  rcases h with ⟨x, rfl, hx, hparse⟩
  have hnull : (JValue.valid x).isNull pf = false := JValue.isNull_valid_of_ne pf hx
  simp [Getter.reading, Reading.ofValue, hnull, hparse]

/-- The states a field can be in, with the reading of each. -/
theorem get_reading_cases (field : Option Json) (d : T) :
    (field = none ∧ (Getter.get parserFunc).reading pf field d = .absent d) ∨
    (field = some .null ∧ (Getter.get parserFunc).reading pf field d = .null d) ∨
    (∃ x d', field = some x ∧ x ≠ .null ∧ (∀ d', parserFunc (.valid x) d ≠ (.ok (), d')) ∧
      (Getter.get parserFunc).reading pf field d = .failure d') ∨
    ∃ d', Decodes parserFunc field d d' := by
  cases field with
  | none => exact .inl ⟨rfl, rfl⟩
  | some x =>
      by_cases hx : x = .null
      · subst hx
        exact .inr (.inl ⟨rfl, rfl⟩)
      · rcases hparse : parserFunc (.valid x) d with ⟨e | u, d'⟩
        · have hnull : (JValue.valid x).isNull pf = false := JValue.isNull_valid_of_ne pf hx
          refine .inr (.inr (.inl ⟨x, d', rfl, hx, ?_, ?_⟩))
          · simp [hparse]
          · simp [Getter.reading, Reading.ofValue, hnull, hparse]
        · exact .inr (.inr (.inr ⟨d', x, rfl, hx, hparse⟩))

theorem Decodes.unique {field : Option Json} {d a b : T} (ha : Decodes parserFunc field d a)
    (hb : Decodes parserFunc field d b) : a = b := by
  rcases ha with ⟨x, rfl, _, hxa⟩
  rcases hb with ⟨y, hy, _, hyb⟩
  obtain rfl := Option.some.inj hy
  rw [hxa] at hyb
  exact (Prod.mk.inj hyb).2

theorem get_reading_valueRead (field : Option Json) (d : T) :
    ((Getter.get parserFunc).reading pf field d).valueRead = true ↔
      ∃ d', Decodes parserFunc field d d' := by
  rcases get_reading_cases pf parserFunc field d with
    ⟨hfield, hr⟩ | ⟨hfield, hr⟩ | ⟨x, d', hfield, hx, hfails, hr⟩ | ⟨d', hdecodes⟩
  · rw [hr]
    simp [hfield, Reading.absent, Decodes]
  · rw [hr]
    simp [hfield, Reading.null, Decodes]
  · rw [hr]
    simp [hfield, Reading.failure, Decodes, hfails]
  · rw [reading_of_decodes pf parserFunc hdecodes]
    exact iff_of_true rfl ⟨d', hdecodes⟩

theorem accepted_iff_not_refused (field : Option Json) (d : T) {chain : List (Constraint T)}
    (honce : AtMostOnce chain) :
    ((Getter.get parserFunc).reading pf field d).Accepted chain ↔
      ¬ Refused parserFunc field d chain := by
  rcases get_reading_cases pf parserFunc field d with
    ⟨hfield, hr⟩ | ⟨hfield, hr⟩ | ⟨x, d', hfield, hx, hfails, hr⟩ | ⟨d', hdecodes⟩
  · rw [hr]
    constructor
    · intro h hrefused
      have hoptional := (isOptional_iff honce).mp (h.present rfl)
      cases hrefused with
      | absent _ hmandatory => exact hmandatory hoptional
      | null hnull => simp [hfield] at hnull
      | undecodable hsome => simp [hfield] at hsome
      | value hdecodes => simp [Decodes, hfield] at hdecodes
    · intro h
      have hoptional : .optional true ∈ chain := by
        by_contra hmandatory
        exact h (.absent hfield hmandatory)
      exact ⟨rfl, by simp [Reading.absent], fun _ => (isOptional_iff honce).mpr hoptional,
        by simp [Reading.absent]⟩
  · rw [hr]
    constructor
    · intro h hrefused
      have hoptional := (isOptional_iff honce).mp (h.present rfl)
      have hallowed := (allowsNull_iff honce).mp (h.notNull rfl rfl)
      cases hrefused with
      | absent hnone => simp [hfield] at hnone
      | null _ hnot => exact hnot ⟨hoptional, hallowed⟩
      | undecodable hsome hx => exact hx (Option.some.inj (hsome.symm.trans hfield))
      | value hdecodes => simp [Decodes, hfield] at hdecodes
    · intro h
      have hboth : .optional true ∈ chain ∧ .allowNull true ∈ chain := by
        by_contra hnot
        exact h (.null hfield hnot)
      exact ⟨rfl, by simp [Reading.null], fun _ => (isOptional_iff honce).mpr hboth.1,
        fun _ _ => (allowsNull_iff honce).mpr hboth.2⟩
  · rw [hr]
    constructor
    · intro h
      exact absurd h.noError (by simp [Reading.failure])
    · intro h
      exact absurd (.undecodable hfield hx hfails) h
  · rw [reading_of_decodes pf parserFunc hdecodes]
    constructor
    · intro h hrefused
      cases hrefused with
      | absent hnone => simp [Decodes, hnone] at hdecodes
      | null hnull => simp [Decodes, hnull] at hdecodes
      | undecodable hsome _ hfails =>
          rcases hdecodes with ⟨x, hx, _, hparse⟩
          obtain rfl := Option.some.inj (hsome.symm.trans hx)
          exact hfails d' hparse
      | value hother hmem hrefuses =>
          obtain rfl := hdecodes.unique parserFunc hother
          exact Bool.false_ne_true ((h.value rfl _ hmem).symm.trans hrefuses)
    · intro h
      refine ⟨rfl, ?_, by simp [Reading.value], by simp [Reading.value]⟩
      intro _ k hk
      by_contra hrefuses
      exact h (.value hdecodes hk (Bool.not_eq_false _ ▸ hrefuses))

/-- What a request by `get` leaves, said without the order of its chain. Every `checkValueRead`
stores a flag. -/
structure GetResult (p : JsonParser) (name : String) (d : T) (chain : List (Constraint T))
    (r : FieldResult T) : Prop where
  error : r.parser.hasError = true ↔
    p.hasError = true ∨ Refused parserFunc (p.jsonValue.members.lookup name) d chain
  flagCount : r.flags.length = chain.countP Constraint.isFlag
  flags : ∀ flag ∈ r.flags,
    flag = true ↔ ∃ d', Decodes parserFunc (p.jsonValue.members.lookup name) d d'
  decoded : ∀ d', Decodes parserFunc (p.jsonValue.members.lookup name) d d' → r.destination = d'
  default : (¬ ∃ d', Decodes parserFunc (p.jsonValue.members.lookup name) d d') →
    ∀ value, .defaultValue value ∈ chain → r.destination = value

theorem get_result (p : JsonParser) (name : String) (d : T) {chain : List (Constraint T)}
    (honce : AtMostOnce chain) :
    GetResult parserFunc p name d chain ((p.get pf name d parserFunc).finish chain) := by
  have herror := (Getter.get parserFunc).finish_hasError pf p name d chain
  have hdest := (Getter.get parserFunc).finish_destination pf p name d chain
  have hflags := (Getter.get parserFunc).finish_flags pf p name d chain
  dsimp only [Getter.context] at herror hdest hflags
  rw [accepted_iff_not_refused pf parserFunc _ d honce, not_not] at herror
  have hread := get_reading_valueRead pf parserFunc (p.jsonValue.members.lookup name) d
  refine ⟨herror, ?_, ?_, ?_, ?_⟩
  · rw [hflags, List.length_replicate]
  · intro flag hflag
    rw [hflags] at hflag
    rw [List.eq_of_mem_replicate hflag, hread]
  · intro d' hdecodes
    rw [hdest, reading_of_decodes pf parserFunc hdecodes]
    rfl
  · intro hnot value hvalue
    rw [← hread, Bool.not_eq_true] at hnot
    rw [hdest, if_neg (by simp [hnot])]
    exact lastWrite_of_mem honce.defaultValue hvalue rfl _

/-- For every field, chain and order of it: what is accepted and what is left, and that
any permutation of the chain is accepted alike and leaves the same. -/
theorem get_any_order (p : JsonParser) (name : String) (d : T) (chain : List (Constraint T))
    (honce : AtMostOnce chain) :
    GetResult parserFunc p name d chain ((p.get pf name d parserFunc).finish chain) ∧
    ∀ chain', chain.Perm chain' →
      let r := (p.get pf name d parserFunc).finish chain
      let r' := (p.get pf name d parserFunc).finish chain'
      r'.parser.hasError = r.parser.hasError ∧ r'.flags = r.flags ∧
        r'.destination = r.destination := by
  refine ⟨get_result pf parserFunc p name d honce, ?_⟩
  intro chain' hperm
  have hrefused : Refused parserFunc (p.jsonValue.members.lookup name) d chain' ↔
      Refused parserFunc (p.jsonValue.members.lookup name) d chain := by
    constructor
    · exact fun h => h.of_mem parserFunc fun k => hperm.mem_iff
    · exact fun h => h.of_mem parserFunc fun k => hperm.mem_iff.symm
  refine ⟨?_, ?_, ?_⟩
  · rw [Bool.eq_iff_iff, (get_result pf parserFunc p name d (honce.perm hperm)).error,
      (get_result pf parserFunc p name d honce).error, hrefused]
  · rw [JsonParseContext.finish_flags, JsonParseContext.finish_flags, hperm.countP_eq]
  · rw [JsonParseContext.finish_destination, JsonParseContext.finish_destination, defaulted,
      defaulted, lastWrite_perm hperm honce.defaultValue]

/-- A number that is not there, with a default and a bound the default is beyond. -/
theorem get_any_order_default :
    let chain : List (Constraint Nat) := [.min 3, .defaultValue 1, .checkValueRead, .optional true]
    AtMostOnce chain ∧
      GetResult (fun _ d => (.ok (), d)) (.ofJson (.valid (.object []))) "a" 0 chain
        ((JsonParser.ofJson (.valid (.object []))).get .ofEmptyObject "a" 0
          (fun _ d => (.ok (), d)) |>.finish chain) := by
  have honce : AtMostOnce ([.min 3, .defaultValue 1, .checkValueRead, .optional true] :
      List (Constraint Nat)) := ⟨by decide, by decide, by decide⟩
  exact ⟨honce, (get_any_order .ofEmptyObject _ _ "a" 0 _ honce).1⟩

end LSHelpers
