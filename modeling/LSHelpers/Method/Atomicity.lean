import LSHelpers.Method.Dispatch
import LSHelpers.Method.Signals

/-!
# Registrations that throw

The names in the list of a service point are distinct and accepted, whatever fails. A
registration makes two bus calls, and nothing takes back the first when the second fails:
the table is then as it was only if the first call found an entry equal to the one it makes.
-/

namespace LSHelpers

open Transition

namespace Registry

variable {pf : Platform} {keepsContext : Bool} {s t : Registry pf} {es : List (Event pf)}

/-- No category and method is twice in a list, and the names in it pass the checks. -/
structure WellNamed (s : Registry pf) : Prop where
  distinct : ∀ point p, s.points point = some p →
    p.mMethods.Pairwise fun info info' =>
      ¬ (info.category = info'.category ∧ info.method = info'.method)
  accepted : ∀ point p info, s.points point = some p → info ∈ p.mMethods →
    info.category.toList.head? = some '/' ∧ info.method ≠ "" ∧ '/' ∉ info.method.toList

/-- A registration by this event that throws leaves the lists and the method table as they
were. -/
def Atomic (keepsContext : Bool) (s : Registry pf) : Event pf → Prop
  | .registerMethod point category methodName handler schema address append data =>
      ∀ p, s.points point = some p → s.heap address = none →
        let r := s.registerMethod keepsContext point p
          ⟨address, point, handler, schema, category, methodName⟩ append data
        r.1 ≠ .ok () → r.2.points = s.points ∧ r.2.table = s.table
  | _ => True

/-- When the checks are passed, the first bus call goes through and the second fails, the
table has the very entry that the first call makes. -/
def Undisturbed (keepsContext : Bool) (s : Registry pf) : Event pf → Prop
  | .registerMethod point category methodName _ _ address append data =>
      ∀ p handle, s.points point = some p → s.heap address = none →
        p.check category methodName = .ok handle → append = none → data ≠ none →
        ∃ context, s.table ⟨handle, category, methodName⟩ = some ⟨.methodHandler, context⟩ ∧
          (keepsContext = true ∨ context = none)
  | _ => True

/-! ## The names -/

namespace WellNamed

theorem init : WellNamed (init pf) := ⟨by simp [Registry.init], by simp [Registry.init]⟩

variable {point : Nat} {p : MethodOwner pf} {info : MethodInfo pf}

/-- The lists of `t` are those of `s`, or fewer. -/
theorem of_points (h : WellNamed s)
    (hpoints : ∀ q p', t.points q = some p' → p'.mMethods = [] ∨ s.points q = some p') :
    WellNamed t where
  distinct q p' hq := by
    cases hpoints q p' hq with
    | inl hnil => simp [hnil]
    | inr hold => exact h.distinct q p' hold
  accepted q p' i hq hi := by
    cases hpoints q p' hq with
    | inl hnil => simp [hnil] at hi
    | inr hold => exact h.accepted q p' i hold hi

/-- The checks are what the list asks of one more entry. -/
theorem register {handle : LSHandle} (h : WellNamed s) (hp : s.points point = some p)
    (hcheck : p.check info.category info.method = .ok handle) :
    WellNamed (s.registered keepsContext point p handle info) := by
  rcases check_ok_iff.mp hcheck with ⟨_, hfresh, hnames⟩
  have hlist : ∀ q p', (s.registered keepsContext point p handle info).points q = some p' →
      q = point ∧ p'.mMethods = p.mMethods ++ [info] ∨ s.points q = some p' := by
    intro q p' hq
    unfold registered at hq
    dsimp only at hq
    rw [Function.update_apply] at hq
    split at hq
    · next heq =>
        obtain rfl := Option.some.inj hq
        exact .inl ⟨heq, rfl⟩
    · exact .inr hq
  constructor
  · intro q p' hq
    rcases hlist q p' hq with hnew | hold
    · rw [hnew.2, List.pairwise_append]
      refine ⟨h.distinct point p hp, List.pairwise_singleton _ _, ?_⟩
      intro i hi i' hi'
      obtain rfl := List.mem_singleton.mp hi'
      exact hfresh i hi
    · exact h.distinct q p' hold
  · intro q p' i hq hi
    rcases hlist q p' hq with hnew | hold
    · rw [hnew.2, List.mem_append, List.mem_singleton] at hi
      rcases hi with hmem | rfl
      · exact h.accepted point p i hp hmem
      · exact checkNames_ok_iff.mp hnames
    · exact h.accepted q p' i hold hi

theorem step {e : Event pf} (h : WellNamed s) (hstep : s.step keepsContext e = some t) :
    WellNamed t := by
  rcases step_cases hstep with hcreate | hregister | hdestroy
  · rcases hcreate with ⟨point, handle, rfl, _, rfl⟩
    apply h.of_points
    intro q p' hq
    dsimp only at hq
    rw [Function.update_apply] at hq
    split at hq
    · obtain rfl := Option.some.inj hq
      exact .inl rfl
    · exact .inr hq
  · rcases hregister with ⟨point, p, info, append, data, rfl, hp, _, _, rfl⟩
    rcases registerMethod_cases keepsContext s point p info append data with
      hrefused | hfailed | hkept
    · rw [hrefused.2.1]
      exact h
    · rcases hfailed with ⟨handle, _, _, _, _, ht⟩
      rw [ht]
      exact h.of_points fun _ _ hq => .inr hq
    · rcases hkept with ⟨handle, hcheck, _, _, _, ht⟩
      rw [ht]
      exact h.register hp hcheck
  · rcases hdestroy with ⟨point, p, rfl, _, rfl⟩
    apply h.of_points
    intro q p' hq
    unfold Registry.destroy at hq
    dsimp only at hq
    rw [Function.update_apply] at hq
    split at hq
    · cases hq
    · exact .inr hq

theorem run (h : Transition.run (Registry.step keepsContext) (Registry.init pf) es = some t) :
    WellNamed t :=
  run_invariant (fun _ _ _ hm hstep => hm.step hstep) h init

end WellNamed

/-! ## The table -/

/-- Appending a method that is there changes nothing if the context stays as it is. -/
theorem registerCategoryAppend_eq_iff (table : MethodTable) (key : MethodKey) :
    table.registerCategoryAppend keepsContext key .methodHandler = table ↔
      ∃ context, table key = some ⟨.methodHandler, context⟩ ∧
        (keepsContext = true ∨ context = none) := by
  have hself : table.registerCategoryAppend keepsContext key .methodHandler key = _ :=
    registerCategoryAppend_self table key .methodHandler
  constructor
  · intro h
    rw [h] at hself
    refine ⟨_, hself, ?_⟩
    cases keepsContext with
    | false => exact .inr rfl
    | true => exact .inl rfl
  · intro h
    rcases h with ⟨context, hentry, hkeeps⟩
    funext key'
    by_cases hkey : key' = key
    · subst hkey
      rw [hself, hentry]
      rcases hkeeps with rfl | rfl
      · rfl
      · cases keepsContext <;> rfl
    · exact registerCategoryAppend_of_ne hkey table .methodHandler

/-- Of the ways a registration can end, only one throws and may leave a trace. -/
theorem atomic_iff (s : Registry pf) (e : Event pf) :
    Atomic keepsContext s e ↔ Undisturbed keepsContext s e := by
  cases e with
  | create point handle => exact Iff.rfl
  | destroy point => exact Iff.rfl
  | registerMethod point category methodName handler schema address append data =>
      unfold Atomic Undisturbed
      dsimp only
      have hcases := fun p => registerMethod_cases keepsContext s point p
        ⟨address, point, handler, schema, category, methodName⟩ append data
      constructor
      · intro hatomic p handle' hp hfree hcheck happend hdata
        rcases hcases p with hrefused | hfailed | hkept
        · exact absurd happend (hrefused.2.2 handle' hcheck)
        · rcases hfailed with ⟨handle'', hcheck', _, _, hthrows, hafter⟩
          obtain rfl := Except.ok.inj (hcheck.symm.trans hcheck')
          have htable := (hatomic p hp hfree hthrows).2
          rw [hafter] at htable
          exact (registerCategoryAppend_eq_iff s.table _).mp htable
        · rcases hkept with ⟨_, _, _, hdata', _⟩
          exact absurd hdata' hdata
      · intro hundisturbed p hp hfree hthrows
        rcases hcases p with hrefused | hfailed | hkept
        · rw [hrefused.2.1]
          exact ⟨rfl, rfl⟩
        · rcases hfailed with ⟨handle', hcheck, happend, hdata, _, hafter⟩
          have hentry := hundisturbed p handle' hp hfree hcheck happend hdata
          rw [hafter]
          exact ⟨rfl, (registerCategoryAppend_eq_iff s.table _).mpr hentry⟩
        · rcases hkept with ⟨_, _, _, _, hreturns, _⟩
          exact absurd hreturns hthrows

/-- The names are distinct and accepted in the state a run ends in, and every registration
of the run that throws leaves no trace exactly when each one is undisturbed. -/
theorem registrations_atomic_iff (h : run (step keepsContext) (init pf) es = some t) :
    WellNamed t ∧
      (Meets (step keepsContext) (Atomic keepsContext) (init pf) es ↔
        Meets (step keepsContext) (Undisturbed keepsContext) (init pf) es) := by
  refine ⟨WellNamed.run h, ?_⟩
  constructor
  · intro hatomic pre e post s hsplit hpre
    exact (atomic_iff s e).mp (hatomic pre e post s hsplit hpre)
  · intro hundisturbed pre e post s hsplit hpre
    exact (atomic_iff s e).mpr (hundisturbed pre e post s hsplit hpre)

theorem registrations_atomic_of_one :
    ∃ t, run (step true) (init .ofEmptyObject)
        [.create 1 (some 7), .ofInfo 1 (trueMethod 1 10) none none] = some t ∧ WellNamed t ∧
      (Meets (step true) (Atomic true) (init .ofEmptyObject)
          [.create 1 (some 7), .ofInfo 1 (trueMethod 1 10) none none] ↔
        Meets (step true) (Undisturbed true) (init .ofEmptyObject)
          [.create 1 (some 7), .ofInfo 1 (trueMethod 1 10) none none]) :=
  ⟨_, rfl, registrations_atomic_iff rfl⟩

/-- The second bus call fails: the method is in the table, with no object. -/
theorem registration_leaves_entry :
    ∃ t, run (step true) (init .ofEmptyObject)
        [.create 1 (some 7), .ofInfo 1 (trueMethod 1 10) none (some "")] = some t ∧
      t.table ⟨7, "/", "m"⟩ = some ⟨.methodHandler, none⟩ ∧
      ¬ Meets (step true) (Atomic true) (init .ofEmptyObject)
        [.create 1 (some 7), .ofInfo 1 (trueMethod 1 10) none (some "")] := by
  refine ⟨_, rfl, rfl, ?_⟩
  intro hatomic
  have hlast := hatomic [.create 1 (some 7)] (.ofInfo 1 (trueMethod 1 10) none (some "")) [] _
    rfl rfl
  have htable := (hlast ⟨some 7, []⟩ rfl rfl (by decide)).2
  have hentry := congrFun htable ⟨7, "/", "m"⟩
  cases hentry

end Registry

end LSHelpers
