import LSHelpers.Method.Registry

/-!
# Contexts of the method table and the objects they point to

`Owns` is said of a service point that is alive, a key on its handle and an object in
its list. Every context in a method table is the address of an object that is owned
for the very key of the entry, whatever order registrations, failures and
destructions come in.
-/

namespace LSHelpers

open Transition

namespace Registry

variable {pf : Platform} {keepsContext : Bool}

/-- The service point is alive and has `info` in its list, registered for `key`. -/
def Owns (s : Registry pf) (point : Nat) (key : MethodKey) (info : MethodInfo pf) : Prop :=
  ∃ p, s.points point = some p ∧ p.mHandle = some key.handle ∧ info ∈ p.mMethods ∧
    info.key key.handle = key

/-! ## The table -/

@[simp] theorem registerCategoryAppend_self (table : MethodTable) (key : MethodKey)
    (function : LSMethodFunction) :
    table.registerCategoryAppend keepsContext key function key =
      some ⟨function, if keepsContext then (table key).bind MethodEntry.context else none⟩ :=
  Function.update_self _ _ _

theorem registerCategoryAppend_of_ne {key key' : MethodKey} (h : key' ≠ key) (table : MethodTable)
    (function : LSMethodFunction) :
    table.registerCategoryAppend keepsContext key function key' = table key' :=
  Function.update_of_ne h _ _

theorem setMethodData_of_ne {key key' : MethodKey} (h : key' ≠ key) (table : MethodTable)
    (context : Option Nat) : table.setMethodData key context key' = table key' :=
  Function.update_of_ne h _ _

/-- What both bus calls leave under the key. -/
theorem append_setMethodData_self (table : MethodTable) (key : MethodKey)
    (function : LSMethodFunction) (context : Option Nat) :
    (table.registerCategoryAppend keepsContext key function).setMethodData key context key =
      some ⟨function, context⟩ := by
  rw [MethodTable.setMethodData, Function.update_self, registerCategoryAppend_self]
  rfl

theorem unregisterMethodImpl_self (handle : LSHandle) (table : MethodTable)
    (info : MethodInfo pf) :
    unregisterMethodImpl keepsContext handle table info (info.key handle) =
      some ⟨.removedMethodHandler, none⟩ :=
  append_setMethodData_self table (info.key handle) .removedMethodHandler none

theorem unregisterMethodImpl_of_ne {handle : LSHandle} {info : MethodInfo pf} {key : MethodKey}
    (h : key ≠ info.key handle) (table : MethodTable) :
    unregisterMethodImpl keepsContext handle table info key = table key := by
  rw [unregisterMethodImpl, setMethodData_of_ne h, registerCategoryAppend_of_ne h]

/-- The destructor's loop: the entries of its own keys are overwritten, the others stay. -/
theorem unregisterAll_apply (keepsContext : Bool) (handle : LSHandle) (infos : List (MethodInfo pf))
    (table : MethodTable) (key : MethodKey) :
    (key ∈ infos.map (fun info => info.key handle) →
      infos.foldl (unregisterMethodImpl keepsContext handle) table key =
        some ⟨.removedMethodHandler, none⟩) ∧
    (key ∉ infos.map (fun info => info.key handle) →
      infos.foldl (unregisterMethodImpl keepsContext handle) table key = table key) := by
  induction infos generalizing table with
  | nil => simp
  | cons info infos ih =>
      have hrest := ih (unregisterMethodImpl keepsContext handle table info)
      rw [List.map_cons, List.foldl_cons]
      constructor
      · intro hmem
        by_cases hlater : key ∈ infos.map fun info => info.key handle
        · exact hrest.1 hlater
        · have hkey := (List.mem_cons.mp hmem).resolve_right hlater
          rw [hrest.2 hlater, hkey, unregisterMethodImpl_self]
      · intro hmem
        rw [List.mem_cons, not_or] at hmem
        rw [hrest.2 hmem.2, unregisterMethodImpl_of_ne hmem.1]

/-! ## What a step can do -/

/-- The registry after a registration that goes through. -/
def registered (keepsContext : Bool) (s : Registry pf) (point : Nat) (p : MethodOwner pf)
    (handle : LSHandle) (info : MethodInfo pf) : Registry pf where
  points := Function.update s.points point (some { p with mMethods := p.mMethods ++ [info] })
  heap := Function.update s.heap info.address (some info)
  table := (s.table.registerCategoryAppend keepsContext (info.key handle)
    .methodHandler).setMethodData (info.key handle) (some info.address)

/-- The registry after a registration that fails between the two bus calls. -/
def appended (keepsContext : Bool) (s : Registry pf) (key : MethodKey) : Registry pf :=
  { s with table := s.table.registerCategoryAppend keepsContext key .methodHandler }

/-- A registration is refused without a trace, or it fails between the two bus calls, or
it goes through. -/
theorem registerMethod_cases (keepsContext : Bool) (s : Registry pf) (point : Nat)
    (p : MethodOwner pf) (info : MethodInfo pf) (append data : Option String) :
    let r := s.registerMethod keepsContext point p info append data
    (r.1 ≠ .ok () ∧ r.2 = s ∧
      ∀ handle, p.check info.category info.method = .ok handle → append ≠ none) ∨
    (∃ handle, p.check info.category info.method = .ok handle ∧ append = none ∧ data ≠ none ∧
      r.1 ≠ .ok () ∧ r.2 = s.appended keepsContext (info.key handle)) ∨
    (∃ handle, p.check info.category info.method = .ok handle ∧ append = none ∧ data = none ∧
      r.1 = .ok () ∧ r.2 = s.registered keepsContext point p handle info) := by
  dsimp only
  unfold registerMethod
  cases hcheck : p.check info.category info.method with
  | error e => exact .inl ⟨by simp, rfl, by simp⟩
  | ok handle =>
      cases append with
      | some message => exact .inl ⟨by simp [registerMethodImpl], rfl, by simp⟩
      | none =>
          cases data with
          | some message =>
              exact .inr (.inl ⟨handle, rfl, rfl, by simp, by simp [registerMethodImpl], rfl⟩)
          | none => exact .inr (.inr ⟨handle, rfl, rfl, rfl, rfl, rfl⟩)

/-- The three events, with the object a registration makes. -/
theorem step_cases {s t : Registry pf} {e : Event pf} (h : s.step keepsContext e = some t) :
    (∃ point handle, e = .create point handle ∧ s.points point = none ∧
      t = { s with points := Function.update s.points point (some ⟨handle, []⟩) }) ∨
    (∃ point p info append data,
      e = .registerMethod point info.category info.method info.handler info.schema info.address
        append data ∧
      s.points point = some p ∧ s.heap info.address = none ∧ info.service = point ∧
      t = (s.registerMethod keepsContext point p info append data).2) ∨
    (∃ point p, e = .destroy point ∧ s.points point = some p ∧
      t = s.destroy keepsContext point p) := by
  cases e with
  | create point handle =>
      simp only [step] at h
      split at h
      · cases h
      · next hfree => exact .inl ⟨point, handle, rfl, hfree, (Option.some.inj h).symm⟩
  | registerMethod point category methodName handler schema address append data =>
      simp only [step] at h
      split at h
      · next p hp hfree =>
          exact .inr (.inl ⟨point, p, ⟨address, point, handler, schema, category, methodName⟩,
            append, data, rfl, hp, hfree, rfl, (Option.some.inj h).symm⟩)
      · cases h
  | destroy point =>
      rcases Option.map_eq_some_iff.mp h with ⟨p, hp, ht⟩
      exact .inr (.inr ⟨point, p, rfl, hp, ht.symm⟩)

section Owns

variable {s t : Registry pf} {point : Nat} {p : MethodOwner pf} {info : MethodInfo pf}

theorem owns_create {handle : Option LSHandle} (hfree : s.points point = none)
    (ht : t.points = Function.update s.points point (some ⟨handle, []⟩)) (q : Nat)
    (key : MethodKey) (i : MethodInfo pf) : t.Owns q key i ↔ s.Owns q key i := by
  unfold Owns
  rw [ht]
  by_cases hq : q = point
  · subst hq
    rw [Function.update_self, hfree]
    simp
  · rw [Function.update_of_ne hq]

theorem owns_registered (keepsContext : Bool) (info : MethodInfo pf) {handle : LSHandle}
    (hp : s.points point = some p)
    (hhandle : p.mHandle = some handle) (q : Nat) (key : MethodKey) (i : MethodInfo pf) :
    (s.registered keepsContext point p handle info).Owns q key i ↔
      s.Owns q key i ∨ q = point ∧ i = info ∧ key = info.key handle := by
  unfold Owns registered
  dsimp only
  by_cases hq : q = point
  · subst hq
    rw [Function.update_self, hp]
    simp only [Option.some.injEq, exists_eq_left', hhandle, List.mem_append, List.mem_singleton,
      true_and]
    constructor
    · intro h
      rcases h with ⟨hkey, hmem | hnew, heq⟩
      · exact .inl ⟨hkey, hmem, heq⟩
      · exact .inr ⟨hnew, by rw [← heq, hnew, hkey]⟩
    · intro h
      rcases h with ⟨hkey, hmem, heq⟩ | ⟨hnew, heq⟩
      · exact ⟨hkey, .inl hmem, heq⟩
      · subst hnew heq
        exact ⟨rfl, .inr rfl, rfl⟩
  · rw [Function.update_of_ne hq]
    simp [hq]

theorem owns_destroy (ht : t.points = Function.update s.points point none) (q : Nat)
    (key : MethodKey) (i : MethodInfo pf) : t.Owns q key i ↔ q ≠ point ∧ s.Owns q key i := by
  unfold Owns
  rw [ht]
  by_cases hq : q = point
  · subst hq
    simp
  · simp [hq]

end Owns

/-! ## The invariant -/

/-- Objects in the lists exist and know their service point, and a context is the address
of an object owned for its key. -/
structure Sound (s : Registry pf) : Prop where
  owned : ∀ point p info, s.points point = some p → info ∈ p.mMethods →
    s.heap info.address = some info ∧ info.service = point
  context : ∀ key e a, s.table key = some e → e.context = some a →
    ∃ point info, s.Owns point key info ∧ info.address = a

namespace Sound

theorem init : Sound (init pf) := ⟨by simp [Registry.init], by simp [Registry.init]⟩

variable {s t : Registry pf} {point : Nat} {p : MethodOwner pf} {info : MethodInfo pf}

theorem heap_of_owns (h : Sound s) {key : MethodKey} (howns : s.Owns point key info) :
    s.heap info.address = some info ∧ info.service = point := by
  rcases howns with ⟨p, hp, _, hmem, _⟩
  exact h.owned point p info hp hmem

theorem create {handle : Option LSHandle} (h : Sound s) (hfree : s.points point = none) :
    Sound { s with points := Function.update s.points point (some ⟨handle, []⟩) } where
  owned q p' i hq hi := by
    dsimp only at hq ⊢
    rw [Function.update_apply] at hq
    split at hq
    · obtain rfl := Option.some.inj hq
      exact absurd hi List.not_mem_nil
    · exact h.owned q p' i hq hi
  context key e a he ha := by
    rcases h.context key e a he ha with ⟨q, i, howns, haddr⟩
    exact ⟨q, i, (owns_create hfree rfl q key i).mpr howns, haddr⟩

/-- A registration that fails between the bus calls has at most kept an old context. -/
theorem appended (h : Sound s) (key : MethodKey) : Sound (s.appended keepsContext key) where
  owned := h.owned
  context key' e a he ha := by
    unfold Registry.appended at he
    dsimp only at he
    by_cases hkey : key' = key
    · subst hkey
      rw [registerCategoryAppend_self, Option.some.injEq] at he
      subst he
      cases keepsContext with
      | false => cases ha
      | true =>
          rcases Option.bind_eq_some_iff.mp ha with ⟨old, hold, hcontext⟩
          exact h.context key' old a hold hcontext
    · rw [registerCategoryAppend_of_ne hkey] at he
      exact h.context key' e a he ha

theorem register {handle : LSHandle} (h : Sound s) (hp : s.points point = some p)
    (hhandle : p.mHandle = some handle) (hfree : s.heap info.address = none)
    (hservice : info.service = point) : Sound (s.registered keepsContext point p handle info) where
  owned q p' i hq hi := by
    have hold : ∀ q p', s.points q = some p' → i ∈ p'.mMethods →
        Function.update s.heap info.address (some info) i.address = some i ∧ i.service = q := by
      intro q p' hq hi
      rcases h.owned q p' i hq hi with ⟨hheap, hs⟩
      have hne : i.address ≠ info.address := by
        intro heq
        rw [heq, hfree] at hheap
        cases hheap
      rw [Function.update_of_ne hne]
      exact ⟨hheap, hs⟩
    unfold Registry.registered at hq ⊢
    dsimp only at hq ⊢
    rw [Function.update_apply] at hq
    split at hq
    · next heq =>
        subst heq
        obtain rfl := Option.some.inj hq
        cases List.mem_append.mp hi with
        | inl hmem => exact hold q p hp hmem
        | inr hmem =>
            obtain rfl := List.mem_singleton.mp hmem
            exact ⟨Function.update_self _ _ _, hservice⟩
    · exact hold q p' hq hi
  context key e a he ha := by
    have howns := owns_registered keepsContext info hp hhandle
    unfold Registry.registered at he
    dsimp only at he
    by_cases hkey : key = info.key handle
    · subst hkey
      rw [append_setMethodData_self, Option.some.injEq] at he
      subst he
      exact ⟨point, info, (howns point _ info).mpr (.inr ⟨rfl, rfl, rfl⟩), Option.some.inj ha⟩
    · rw [setMethodData_of_ne hkey, registerCategoryAppend_of_ne hkey] at he
      rcases h.context key e a he ha with ⟨q, i, hq, haddr⟩
      exact ⟨q, i, (howns q key i).mpr (.inl hq), haddr⟩

theorem destroy (h : Sound s) (hp : s.points point = some p) :
    Sound (s.destroy keepsContext point p) where
  owned q p' i hq hi := by
    unfold Registry.destroy at hq ⊢
    dsimp only at hq ⊢
    rw [Function.update_apply] at hq
    split at hq
    · cases hq
    · next hne =>
        rcases h.owned q p' i hq hi with ⟨hheap, hservice⟩
        refine ⟨?_, hservice⟩
        have hother : (p.mMethods.any fun info => info.address == i.address) = false := by
          rw [List.any_eq_false]
          intro info hinfo hsame
          rcases h.owned point p info hp hinfo with ⟨hheap', hservice'⟩
          rw [beq_iff_eq] at hsame
          rw [hsame, hheap, Option.some.injEq] at hheap'
          subst hheap'
          exact hne (hservice.symm.trans hservice')
        rw [hother]
        exact hheap
  context key e a he ha := by
    unfold Registry.destroy at he
    dsimp only at he
    have hkeep : s.table key = some e → (∀ i, ¬ s.Owns point key i) →
        ∃ q i, (s.destroy keepsContext point p).Owns q key i ∧ i.address = a := by
      intro he hnot
      rcases h.context key e a he ha with ⟨q, i, howns, haddr⟩
      have hq : q ≠ point := by
        intro heq
        subst heq
        exact hnot i howns
      exact ⟨q, i, (owns_destroy rfl q key i).mpr ⟨hq, howns⟩, haddr⟩
    cases hhandle : p.mHandle with
    | none =>
        rw [hhandle] at he
        apply hkeep he
        intro i howns
        rcases howns with ⟨p', hp', hsome, _⟩
        obtain rfl := Option.some.inj (hp.symm.trans hp')
        rw [hhandle] at hsome
        cases hsome
    | some handle =>
        rw [hhandle] at he
        have hloop := unregisterAll_apply keepsContext handle p.mMethods s.table key
        by_cases hmem : key ∈ p.mMethods.map fun info => info.key handle
        · dsimp only at he
          rw [hloop.1 hmem, Option.some.injEq] at he
          subst he
          cases ha
        · dsimp only at he
          rw [hloop.2 hmem] at he
          apply hkeep he
          intro i howns
          rcases howns with ⟨p', hp', hsome, hi, hkey⟩
          obtain rfl := Option.some.inj (hp.symm.trans hp')
          obtain rfl := Option.some.inj (hhandle.symm.trans hsome)
          exact hmem (List.mem_map.mpr ⟨i, hi, hkey⟩)

theorem step {e : Event pf} (h : Sound s) (hstep : s.step keepsContext e = some t) : Sound t := by
  rcases step_cases hstep with hcreate | hregister | hdestroy
  · rcases hcreate with ⟨point, handle, rfl, hfree, rfl⟩
    exact h.create hfree
  · rcases hregister with ⟨point, p, info, append, data, rfl, hp, hfree, hservice, rfl⟩
    rcases registerMethod_cases keepsContext s point p info append data with
      hrefused | hfailed | hkept
    · rw [hrefused.2.1]
      exact h
    · rcases hfailed with ⟨handle, _, _, _, _, ht⟩
      rw [ht]
      exact h.appended _
    · rcases hkept with ⟨handle, hcheck, _, _, _, ht⟩
      rw [ht]
      exact h.register hp (check_ok_iff.mp hcheck).1 hfree hservice
  · rcases hdestroy with ⟨point, p, rfl, hp, rfl⟩
    exact h.destroy hp

theorem run {es : List (Event pf)} (h : Transition.run (Registry.step keepsContext)
    (Registry.init pf) es = some t) : Sound t :=
  run_invariant (fun _ _ _ hm hstep => hm.step hstep) h Sound.init

end Sound

end Registry

end LSHelpers
