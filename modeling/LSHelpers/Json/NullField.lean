import LSHelpers.Json.Reading

/-!
# Fields that are null

A plain `get` tracks the null it finds in the context it returns, so the modifiers
of its chain decide. The other getters meet the null in the `get` they make first,
which is optional but never allows null: the error is recorded before the chain of
the request is looked at.
-/

namespace LSHelpers

variable {T : Type}

def Getter.isGet : Getter T → Bool
  | .get _ => true
  | _ => false

/-- A null field is refused unless the request is optional and allows null, and then it
counts as not read, which every `checkValueRead` of the chain is told, and leaves the
destination to the defaults. -/
structure NullTreatedAlike (pf : Platform) (getter : Getter T) (p : JsonParser) (name : String)
    (d : T) (chain : List (Constraint T)) : Prop where
  error : ((getter.context pf p name d).finish chain).parser.hasError = true ↔
    ¬ (isOptional chain = true ∧ allowsNull chain = true)
  notRead : isOptional chain = true ∧ allowsNull chain = true →
    (getter.context pf p name d).checkValueRead = false ∧
      ((getter.context pf p name d).finish chain).flags =
        List.replicate (chain.countP Constraint.isFlag) false
  destination : isOptional chain = true ∧ allowsNull chain = true →
    ((getter.context pf p name d).finish chain).destination = defaulted chain d

section

variable (pf : Platform) (getter : Getter T) (d : T)

theorem Getter.reading_null :
    getter.reading pf (some .null) d = if getter.isGet then .null d else .failure d := by
  cases getter with
  | get => rfl
  | getFromString => rfl
  | getAndMap => rfl
  | getArray => rfl

/-- Nothing is read of a null field, and the destination is left as it was. -/
theorem Getter.reading_null_unread :
    (getter.reading pf (some .null) d).valueRead = false ∧
      (getter.reading pf (some .null) d).destination = d := by
  rw [getter.reading_null]
  cases getter.isGet with
  | true => exact ⟨rfl, rfl⟩
  | false => exact ⟨rfl, rfl⟩

theorem Getter.reading_null_accepted (chain : List (Constraint T)) :
    (getter.reading pf (some .null) d).Accepted chain ↔
      getter.isGet = true ∧ isOptional chain = true ∧ allowsNull chain = true := by
  rw [getter.reading_null]
  cases getter.isGet with
  | true =>
      constructor
      · exact fun h => ⟨rfl, h.present rfl, h.notNull rfl rfl⟩
      · exact fun h => ⟨rfl, by simp [Reading.null], fun _ => h.2.1, fun _ _ => h.2.2⟩
  | false =>
      constructor
      · exact fun h => absurd h.noError (by simp [Reading.failure])
      · exact fun h => absurd h.1 (by simp)

variable (p : JsonParser) (name : String) (chain : List (Constraint T))

/-- The getters agree on a null field exactly when the request is a plain `get`, or is not
both optional and allowing null. -/
theorem nullTreatedAlike_iff (hclean : p.hasError = false)
    (hnull : p.jsonValue.members.lookup name = some .null) :
    NullTreatedAlike pf getter p name d chain ↔
      getter.isGet = true ∨ ¬ (isOptional chain = true ∧ allowsNull chain = true) := by
  have herror := getter.finish_hasError pf p name d chain
  dsimp only at herror
  rw [hnull, getter.reading_null_accepted, hclean] at herror
  rcases getter.reading_null_unread pf d with ⟨hread, hdest⟩
  have hreads := getter.context_reads pf p name d
  dsimp only at hreads
  rw [hnull] at hreads
  constructor
  · intro h
    by_contra hnot
    rw [not_or, not_not] at hnot
    have hfails := herror.mpr (.inr fun haccepted => hnot.1 haccepted.1)
    exact h.error.mp hfails hnot.2
  · intro h
    refine ⟨?_, ?_, ?_⟩
    · rw [herror]
      rcases h with hget | hnot
      · simp [hget]
      · exact iff_of_true (.inr fun haccepted => hnot haccepted.2) hnot
    · intro _
      refine ⟨hreads.valueRead.trans hread, ?_⟩
      rw [getter.finish_flags, hnull, hread]
    · intro _
      have h := getter.finish_destination pf p name d chain
      dsimp only at h
      rw [hnull, hread, hdest] at h
      exact h

end

/-- An optional array that may be null, in an object where it is. -/
theorem getArray_null :
    ¬ NullTreatedAlike .ofEmptyObject (.getArray 0 fun _ d => (.ok (), d))
      (.ofJson (.valid (.object [("a", .null)]))) "a" ([] : List Nat)
      [.optional true, .allowNull true] := by
  intro h
  have herror : ((Getter.getArray 0 fun _ d => (.ok (), d)).context .ofEmptyObject
      (.ofJson (.valid (.object [("a", .null)]))) "a" ([] : List Nat) |>.finish
        [.optional true, .allowNull true]).parser.hasError = true := by decide
  exact h.error.mp herror ⟨rfl, rfl⟩

theorem get_null_alike :
    NullTreatedAlike .ofEmptyObject (.get fun _ d => (.ok (), d))
      (.ofJson (.valid (.object [("a", .null)]))) "a" 0
      [.optional true, .allowNull true, .defaultValue 7] :=
  (nullTreatedAlike_iff .ofEmptyObject (.get fun _ d => (.ok (), d)) 0
    (.ofJson (.valid (.object [("a", .null)]))) "a"
    [.optional true, .allowNull true, .defaultValue 7] rfl rfl).mpr (.inl rfl)

end LSHelpers
