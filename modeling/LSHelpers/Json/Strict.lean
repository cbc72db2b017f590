import LSHelpers.Json.Conformance
import LSHelpers.Json.Requests

/-!
# What the strict check counts

The strict check compares the number of successful look-ups with the size of the
object. A name that is looked up again is counted again, so the check sees an
unexpected key only as long as the repeated reads do not make up for it.
-/

namespace LSHelpers

variable {Var : Type} [DecidableEq Var] {Ty : Var → Type}

/-- One use of the parser by name; `getObject` has no destination and no modifiers. -/
inductive Access (Ty : Var → Type)
  | field (q : Request Ty)
  | object (name : String)

namespace Access

def name : Access Ty → String
  | .field q => q.name
  | .object name => name

def run (pf : Platform) (a : Access Ty) (s : JsonParser × Memory Ty) : JsonParser × Memory Ty :=
  match a with
  | .field q => q.run pf s
  | .object name => ((s.1.getObject pf name).1, s.2)

def runAll (pf : Platform) (as : List (Access Ty)) (s : JsonParser × Memory Ty) :
    JsonParser × Memory Ty :=
  as.foldl (fun s a => a.run pf s) s

/-! ## The counter -/

theorem run_log (pf : Platform) (a : Access Ty) (x : Json) (p : JsonParser) (m : Memory Ty)
    (hp : p.jsonValue = .valid x) :
    ∃ error, (a.run pf (p, m)).1 = p.log error (foundFields x a.name) := by
  cases a with
  | field q =>
      rcases q.run_effect pf x (m q.destination) with ⟨error, valueRead, d, h⟩
      exact ⟨error, congrArg Prod.fst (h p m hp rfl)⟩
  | object name =>
      rcases get_steady pf x name (.valid .null) JsonParser.parseValueJValue with ⟨error, c, h⟩
      rcases finishParse_eq c with ⟨error', h'⟩
      simp only [Access.run, Access.name, JsonParser.getObject, h p hp, h', JsonParser.log_log]
      cases c.destination.isObject with
      | true => exact ⟨JsonParser.firstError error error', rfl⟩
      | false =>
          simp only [Bool.not_false, if_true, JsonParser.recordError_eq_log, JsonParser.log_log]
          exact ⟨_, rfl⟩

theorem runAll_log (pf : Platform) (as : List (Access Ty)) (x : Json) (p : JsonParser)
    (m : Memory Ty) (hp : p.jsonValue = .valid x) :
    ∃ error, (runAll pf as (p, m)).1 =
      p.log error (as.map fun a => foundFields x a.name).sum := by
  induction as generalizing p m with
  | nil => exact ⟨"", p.log_empty.symm⟩
  | cons a as ih =>
      rcases a.run_log pf x p m hp with ⟨error, h⟩
      obtain ⟨error', h'⟩ := ih (a.run pf (p, m)).1 (a.run pf (p, m)).2
        ((congrArg JsonParser.jsonValue h).trans hp)
      refine ⟨JsonParser.firstError error error', ?_⟩
      rw [List.map_cons, List.sum_cons, ← JsonParser.log_log, ← h]
      exact h'

end Access

/-- The names, as often as they were looked up, that the object has. -/
def foundNames (ms : List (String × Json)) (names : List String) : List String :=
  names.filter fun name => (ms.lookup name).isSome

/-- The look-ups of present names beyond the first of each. -/
def repeatedReads (ms : List (String × Json)) (names : List String) : Nat :=
  (foundNames ms names).length - (foundNames ms names).dedup.length

/-- The number of keys that no look-up named. -/
def unnamedKeys (ms : List (String × Json)) (names : List String) : Nat :=
  ((ms.map Prod.fst).dedup.filter fun key => key ∉ names).length

theorem foundFields_sum (ms : List (String × Json)) (names : List String) :
    (names.map (foundFields (.object ms))).sum = (foundNames ms names).length := by
  induction names with
  | nil => rfl
  | cons name names ih =>
      rw [List.map_cons, List.sum_cons, ih, foundNames, foundNames, List.filter_cons, foundFields,
        JValue.hasKey, JValue.members_object]
      split
      · rw [List.length_cons, Nat.add_comm]
      · rw [Nat.zero_add]

/-- Every key is found or unnamed. -/
theorem foundNames_add_unnamedKeys (ms : List (String × Json)) (names : List String) :
    (foundNames ms names).dedup.length + unnamedKeys ms names =
      (JValue.valid (.object ms)).objectSize := by
  let keys := (ms.map Prod.fst).toFinset
  have hfound : (foundNames ms names).dedup.length = (keys.filter (· ∈ names)).card := by
    rw [← List.card_toFinset]
    congr 1
    ext name
    simp only [foundNames, List.mem_toFinset, List.mem_filter, lookup_isSome_iff, keys,
      Finset.mem_filter, and_comm]
  have hunnamed : unnamedKeys ms names = (keys.filter (· ∉ names)).card := by
    rw [unnamedKeys, ← List.toFinset_card_of_nodup ((List.nodup_dedup _).filter _)]
    congr 1
    ext name
    simp [keys]
  have hsize : (JValue.valid (.object ms)).objectSize = keys.card := (List.card_toFinset _).symm
  rw [hfound, hunnamed, hsize]
  exact Finset.card_filter_add_card_filter_not (· ∈ names)

theorem unnamedKeys_ne_zero_iff (ms : List (String × Json)) (names : List String) :
    unnamedKeys ms names ≠ 0 ↔ ∃ key ∈ ms.map Prod.fst, key ∉ names := by
  rw [unnamedKeys, Ne, List.length_eq_zero_iff, List.filter_eq_nil_iff]
  simp

theorem finishParse_strict_iff {p : JsonParser} (hno : p.hasError = false) :
    (p.finishParse true).2 = false ↔ p.numberOfFields ≠ p.jsonValue.objectSize := by
  by_cases h : p.numberOfFields = p.jsonValue.objectSize
  · simp [JsonParser.finishParse, h, hno]
  · simp [JsonParser.finishParse, h]

/-- The strict check of requests that recorded no error fails exactly when the repeated
reads and the unnamed keys differ in number. -/
theorem strict_fails_iff (pf : Platform) (ms : List (String × Json)) (as : List (Access Ty))
    (m : Memory Ty)
    (hno : (Access.runAll pf as (.ofJson (.valid (.object ms)), m)).1.hasError = false) :
    ((Access.runAll pf as (.ofJson (.valid (.object ms)), m)).1.finishParse true).2 = false ↔
      repeatedReads ms (as.map Access.name) ≠ unnamedKeys ms (as.map Access.name) := by
  rcases Access.runAll_log pf as (.object ms) (.ofJson (.valid (.object ms))) m rfl with ⟨error, h⟩
  have hnames : (as.map fun a => foundFields (.object ms) a.name).sum =
      (foundNames ms (as.map Access.name)).length := by
    rw [← foundFields_sum, List.map_map]
    rfl
  have hsize := foundNames_add_unnamedKeys ms (as.map Access.name)
  have hle : (foundNames ms (as.map Access.name)).dedup.length ≤
      (foundNames ms (as.map Access.name)).length :=
    (List.dedup_sublist _).length_le
  have hcount : (Access.runAll pf as (.ofJson (.valid (.object ms)), m)).1.numberOfFields =
      (foundNames ms (as.map Access.name)).length := by
    rw [h, hnames, JsonParser.log_numberOfFields, JsonParser.ofJson_numberOfFields, Nat.zero_add]
  have hvalue : (Access.runAll pf as (.ofJson (.valid (.object ms)), m)).1.jsonValue =
      .valid (.object ms) := by
    rw [h]
    rfl
  rw [finishParse_strict_iff hno, hcount, hvalue, repeatedReads]
  omega

/-- The strict check sees the unnamed keys exactly as long as no name was read again, or
there are unnamed keys and not as many as repeated reads. -/
theorem strict_reports_iff (pf : Platform) (ms : List (String × Json)) (as : List (Access Ty))
    (m : Memory Ty)
    (hno : (Access.runAll pf as (.ofJson (.valid (.object ms)), m)).1.hasError = false) :
    (((Access.runAll pf as (.ofJson (.valid (.object ms)), m)).1.finishParse true).2 = false ↔
        ∃ key ∈ ms.map Prod.fst, key ∉ as.map Access.name) ↔
      repeatedReads ms (as.map Access.name) = 0 ∨
        unnamedKeys ms (as.map Access.name) ≠ 0 ∧
          repeatedReads ms (as.map Access.name) ≠ unnamedKeys ms (as.map Access.name) := by
  rw [strict_fails_iff pf ms as m hno, ← unnamedKeys_ne_zero_iff]
  omega

/-- A `bool` field read into the one variable there is. -/
def Access.readBool (name : String) : Access (fun _ : Unit => Bool) :=
  .field ⟨(), .get (JsonParser.parseValueBool .ofEmptyObject), name, []⟩

theorem strict_reports_of_once :
    ((Access.runAll .ofEmptyObject [Access.readBool "a"]
          (.ofJson (.valid (.object [("a", .bool true), ("b", .bool true)])),
            fun _ => false)).1.finishParse true).2 = false ↔
      ∃ key ∈ [("a", Json.bool true), ("b", .bool true)].map Prod.fst,
        key ∉ [Access.readBool "a"].map Access.name :=
  (strict_reports_iff .ofEmptyObject [("a", .bool true), ("b", .bool true)]
    [Access.readBool "a"] (fun _ => false) rfl).mpr (.inl (by decide))

/-- Reading `a` twice makes up for the key `b` that is never read. -/
theorem strict_misses_key :
    let ms := [("a", Json.bool true), ("b", .bool true)]
    let as := [Access.readBool "a", Access.readBool "a"]
    let p := (Access.runAll .ofEmptyObject as (.ofJson (.valid (.object ms)), fun _ => false)).1
    p.hasError = false ∧ (p.finishParse true).2 = true ∧
      "b" ∈ ms.map Prod.fst ∧ "b" ∉ as.map Access.name := by
  decide

end LSHelpers
