import LSHelpers.Method.Ownership

/-!
# Where messages for registered methods go

`Registered` reads off the events of a run: the registration returned, and its service
point has not been destroyed since. It says the same as `Owns` does of the state. A
message never reaches anything but the object of such a registration; that it reaches
the object of every one of them holds as long as no two service points share a key.
-/

namespace LSHelpers

open Transition

namespace Registry

variable {pf : Platform} {keepsContext : Bool} {s t : Registry pf} {es : List (Event pf)}

/-- The event that registers `info` at a service point. -/
def Event.ofInfo (point : Nat) (info : MethodInfo pf) (append data : Option String) : Event pf :=
  .registerMethod point info.category info.method info.handler info.schema info.address append data

/-- `registerMethod` with this event in state `s` returns without an exception. -/
def Accepted (keepsContext : Bool) (s : Registry pf) (point : Nat) (key : MethodKey)
    (info : MethodInfo pf) (append data : Option String) : Prop :=
  ∃ p, s.points point = some p ∧ p.mHandle = some key.handle ∧ info.key key.handle = key ∧
    info.service = point ∧ (s.registerMethod keepsContext point p info append data).1 = .ok ()

/-- The run has a registration that returned, of a service point not destroyed since. -/
def Registered (keepsContext : Bool) (es : List (Event pf)) (point : Nat) (key : MethodKey)
    (info : MethodInfo pf) : Prop :=
  ∃ pre append data post s, es = pre ++ .ofInfo point info append data :: post ∧
    run (step keepsContext) (init pf) pre = some s ∧
    Accepted keepsContext s point key info append data ∧ ∀ e ∈ post, e ≠ .destroy point

theorem ofInfo_inj {point q : Nat} {info i : MethodInfo pf}
    {append data append' data' : Option String}
    (h : Event.ofInfo point info append data = .ofInfo q i append' data')
    (hservice : info.service = point) (hservice' : i.service = q) :
    q = point ∧ i = info ∧ append' = append ∧ data' = data := by
  rcases info with ⟨address, service, handler, schema, category, method⟩
  rcases i with ⟨address', service', handler', schema', category', method'⟩
  simp only [Event.ofInfo, Event.registerMethod.injEq] at h
  rcases h with ⟨rfl, rfl, rfl, rfl, rfl, rfl, rfl, rfl⟩
  obtain rfl := hservice
  obtain rfl := hservice'
  exact ⟨rfl, rfl, rfl, rfl⟩

/-- One step keeps what is owned until the destruction, and adds what was accepted. -/
theorem step_owns_iff {e : Event pf} (h : s.step keepsContext e = some t) (q : Nat)
    (key : MethodKey) (i : MethodInfo pf) :
    t.Owns q key i ↔ s.Owns q key i ∧ e ≠ .destroy q ∨
      ∃ append data, e = .ofInfo q i append data ∧ Accepted keepsContext s q key i append data := by
  rcases step_cases h with hcreate | hregister | hdestroy
  · rcases hcreate with ⟨point, handle, rfl, hfree, rfl⟩
    rw [owns_create hfree rfl]
    simp [Event.ofInfo]
  · rcases hregister with ⟨point, p, info, append, data, rfl, hp, hfree, hservice, rfl⟩
    -- an accepted registration by this event is this very registration
    have haccepted : (∃ append' data', Event.ofInfo point info append data = .ofInfo q i append' data' ∧
        Accepted keepsContext s q key i append' data') ↔
        q = point ∧ i = info ∧ p.mHandle = some key.handle ∧ info.key key.handle = key ∧
          (s.registerMethod keepsContext point p info append data).1 = .ok () := by
      constructor
      · intro hex
        rcases hex with ⟨append', data', heq, p', hp', hhandle, hkey, hservice', hok⟩
        rcases ofInfo_inj heq hservice hservice' with ⟨rfl, rfl, rfl, rfl⟩
        obtain rfl := Option.some.inj (hp.symm.trans hp')
        exact ⟨rfl, rfl, hhandle, hkey, hok⟩
      · intro hall
        rcases hall with ⟨rfl, rfl, hhandle, hkey, hok⟩
        exact ⟨append, data, rfl, p, hp, hhandle, hkey, hservice, hok⟩
    have hkeep : Event.ofInfo point info append data ≠ .destroy q := by simp [Event.ofInfo]
    show Owns _ q key i ↔ s.Owns q key i ∧ Event.ofInfo point info append data ≠ .destroy q ∨
      ∃ append' data', Event.ofInfo point info append data = .ofInfo q i append' data' ∧ _
    rw [haccepted]
    rcases registerMethod_cases keepsContext s point p info append data with
      hrefused | hfailed | hkept
    · rw [hrefused.2.1]
      simp [hkeep, hrefused.1]
    · rcases hfailed with ⟨handle, _, _, _, hbad, ht⟩
      rw [ht]
      simp only [hkeep, hbad, and_false, or_false, ne_eq, not_false_eq_true, and_true]
      exact Iff.rfl
    · rcases hkept with ⟨handle, hcheck, _, _, hok, ht⟩
      have hhandle := (check_ok_iff.mp hcheck).1
      rw [ht, owns_registered keepsContext info hp hhandle]
      simp only [hkeep, hok, ne_eq, not_false_eq_true, and_true, hhandle, Option.some.injEq]
      constructor
      · intro hor
        rcases hor with hold | ⟨rfl, rfl, rfl⟩
        · exact .inl hold
        · exact .inr ⟨rfl, rfl, rfl, rfl⟩
      · intro hor
        rcases hor with hold | ⟨rfl, rfl, rfl, hkey⟩
        · exact .inl hold
        · exact .inr ⟨rfl, rfl, hkey.symm⟩
  · rcases hdestroy with ⟨point, p, rfl, hp, rfl⟩
    rw [owns_destroy rfl]
    simp [Event.ofInfo, and_comm, eq_comm]

theorem owns_persist (h : run (step keepsContext) s es = some t) {point : Nat}
    {key : MethodKey} {info : MethodInfo pf} (howns : s.Owns point key info)
    (halive : ∀ e ∈ es, e ≠ .destroy point) : t.Owns point key info := by
  induction es generalizing s with
  | nil =>
      obtain rfl := Option.some.inj h
      exact howns
  | cons e es ih =>
      rcases run_cons_iff.mp h with ⟨m, hm, ht⟩
      rw [List.forall_mem_cons] at halive
      exact ih ht ((step_owns_iff hm point key info).mpr (.inl ⟨howns, halive.1⟩)) halive.2

/-- What a service point has in its list is what the run registered there. -/
theorem owns_iff_registered (h : run (step keepsContext) (init pf) es = some t) (point : Nat)
    (key : MethodKey) (info : MethodInfo pf) :
    t.Owns point key info ↔ Registered keepsContext es point key info := by
  constructor
  · refine run_history (P := fun es s => s.Owns point key info →
      Registered keepsContext es point key info) ?_ ?_ h
    · intro howns
      rcases howns with ⟨p, hp, _⟩
      cases hp
    · intro es e m n hm ih hstep howns
      cases (step_owns_iff hstep point key info).mp howns with
      | inl hold =>
          rcases ih hold.1 with ⟨pre, append, data, post, s, rfl, hs, haccepted, halive⟩
          refine ⟨pre, append, data, post ++ [e], s, by simp, hs, haccepted, ?_⟩
          intro e' he'
          cases List.mem_append.mp he' with
          | inl hmem => exact halive e' hmem
          | inr hmem => exact List.mem_singleton.mp hmem ▸ hold.2
      | inr hnew =>
          rcases hnew with ⟨append, data, rfl, haccepted⟩
          exact ⟨es, append, data, [], m, rfl, hm, haccepted, by simp⟩
  · intro hregistered
    rcases hregistered with ⟨pre, append, data, post, m, rfl, hm, haccepted, halive⟩
    rcases run_next h hm with ⟨n, hn, ht⟩
    have howns := (step_owns_iff hn point key info).mpr (.inr ⟨append, data, rfl, haccepted⟩)
    exact owns_persist ht howns halive

/-! ## A message never reaches another object -/

/-- With a context of `methodHandler` there is an object of a live service point that
registered this very key, in a registration that returned. -/
theorem dispatch_context (h : run (step keepsContext) (init pf) es = some t) (key : MethodKey) :
    t.dispatch key ≠ .dangling ∧
    ∀ context, t.table key = some ⟨.methodHandler, context⟩ → context = none ∨
      ∃ point info, context = some info.address ∧ t.dispatch key = .handled info ∧
        t.Owns point key info ∧ Registered keepsContext es point key info := by
  have hsound := Sound.run h
  have hcontext : ∀ context, t.table key = some ⟨.methodHandler, context⟩ → context = none ∨
      ∃ point info, context = some info.address ∧ t.dispatch key = .handled info ∧
        t.Owns point key info ∧ Registered keepsContext es point key info := by
    intro context hentry
    cases context with
    | none => exact .inl rfl
    | some address =>
        rcases hsound.context key _ address hentry rfl with ⟨point, info, howns, rfl⟩
        have hheap := (hsound.heap_of_owns howns).1
        refine .inr ⟨point, info, rfl, ?_, howns, (owns_iff_registered h point key info).mp howns⟩
        simp only [dispatch, hentry, hheap]
  refine ⟨?_, hcontext⟩
  intro hdangling
  cases hentry : t.table key with
  | none => simp [dispatch, hentry] at hdangling
  | some e =>
      rcases e with ⟨function, context⟩
      cases function with
      | removedMethodHandler => simp [dispatch, hentry] at hdangling
      | methodHandler =>
          cases hcontext context hentry with
          | inl hnull => simp [dispatch, hentry, hnull] at hdangling
          | inr hex =>
              rcases hex with ⟨_, info, _, hhandled, _⟩
              rw [hhandled] at hdangling
              cases hdangling

/-- The objects behind the table are there. -/
theorem Sound.dispatch_ne_dangling (h : Sound t) (key : MethodKey) : t.dispatch key ≠ .dangling := by
  unfold dispatch
  cases hentry : t.table key with
  | none => simp
  | some e =>
      rcases e with ⟨function, context⟩
      cases function with
      | removedMethodHandler => simp
      | methodHandler =>
          cases context with
          | none => simp
          | some address =>
              rcases h.context key _ address hentry rfl with ⟨point, info, howns, rfl⟩
              simp [(h.heap_of_owns howns).1]

/-- The object of a method `/m` that answers `true`. -/
def trueMethod (service address : Nat) : MethodInfo .ofEmptyObject :=
  ⟨address, service, fun _ => ⟨[], .returns (.valid (.bool true))⟩, (), "/", "m"⟩

theorem dispatch_context_of_one :
    ∃ t, run (step true) (init .ofEmptyObject)
        [.create 1 (some 7), .ofInfo 1 (trueMethod 1 10) none none] = some t ∧
      t.dispatch ⟨7, "/", "m"⟩ ≠ .dangling ∧
      ∀ context, t.table ⟨7, "/", "m"⟩ = some ⟨.methodHandler, context⟩ → context = none ∨
        ∃ point info, context = some info.address ∧ t.dispatch ⟨7, "/", "m"⟩ = .handled info ∧
          t.Owns point ⟨7, "/", "m"⟩ info ∧
          Registered true [.create 1 (some 7), .ofInfo 1 (trueMethod 1 10) none none] point
            ⟨7, "/", "m"⟩ info :=
  ⟨_, rfl, dispatch_context rfl ⟨7, "/", "m"⟩⟩

/-! ## Every registration is reached -/

/-- Messages for what a live service point has registered reach its own object. -/
def Served (s : Registry pf) : Prop :=
  ∀ point key info, s.Owns point key info → s.dispatch key = .handled info

theorem Sound.dispatch_iff (h : Sound s) {point : Nat} {key : MethodKey} {info : MethodInfo pf}
    (howns : s.Owns point key info) :
    s.dispatch key = .handled info ↔ s.table key = some ⟨.methodHandler, some info.address⟩ := by
  constructor
  · intro hhandled
    cases hentry : s.table key with
    | none => simp [dispatch, hentry] at hhandled
    | some e =>
        rcases e with ⟨function, context⟩
        cases function with
        | removedMethodHandler => simp [dispatch, hentry] at hhandled
        | methodHandler =>
            cases context with
            | none => simp [dispatch, hentry] at hhandled
            | some address =>
                rcases h.context key _ address hentry rfl with ⟨_, i, hi, rfl⟩
                have hheap := (h.heap_of_owns hi).1
                simp only [dispatch, hentry, hheap, Dispatch.handled.injEq] at hhandled
                rw [hhandled]
  · intro hentry
    simp only [dispatch, hentry, (h.heap_of_owns howns).1]

/-- Under `Served` a key has one service point. -/
theorem Served.unique (h : Served s) (hs : Sound s) {point q : Nat} {key : MethodKey}
    {info i : MethodInfo pf} (howns : s.Owns point key info) (howns' : s.Owns q key i) :
    q = point := by
  have heq := (h point key info howns).symm.trans (h q key i howns')
  obtain rfl := Dispatch.handled.inj heq
  exact (hs.heap_of_owns howns').2.symm.trans (hs.heap_of_owns howns).2

/-- The step does not register, with the table changed by it, what another service point
has registered. -/
def Unshared (keepsContext : Bool) (s : Registry pf) : Event pf → Prop
  | .registerMethod point category methodName _ _ _ append data =>
      ∀ p handle, s.points point = some p → p.check category methodName = .ok handle →
        append = none → (data = none ∨ keepsContext = false) →
          ∀ q info, q ≠ point → ¬ s.Owns q ⟨handle, category, methodName⟩ info
  | _ => True

/-- The check against the own list. -/
theorem check_not_owned {point : Nat} {p : MethodOwner pf} {category methodName : String}
    {handle : LSHandle} (hp : s.points point = some p)
    (hcheck : p.check category methodName = .ok handle) (i : MethodInfo pf) :
    ¬ s.Owns point ⟨handle, category, methodName⟩ i := by
  intro howns
  rcases howns with ⟨p', hp', _, hi, hkey⟩
  obtain rfl := Option.some.inj (hp.symm.trans hp')
  simp only [MethodInfo.key, MethodKey.mk.injEq, true_and] at hkey
  exact (check_ok_iff.mp hcheck).2.1 i hi hkey

theorem Served.step {e : Event pf} (h : Served s) (hs : Sound s)
    (hunshared : Unshared keepsContext s e) (hstep : s.step keepsContext e = some t) : Served t := by
  have ht := hs.step hstep
  intro q key i howns
  rw [ht.dispatch_iff howns]
  have hold : s.Owns q key i → s.table key = some ⟨.methodHandler, some i.address⟩ := by
    intro howns
    exact (hs.dispatch_iff howns).mp (h q key i howns)
  rcases step_cases hstep with hcreate | hregister | hdestroy
  · rcases hcreate with ⟨point, handle, rfl, hfree, rfl⟩
    exact hold ((owns_create hfree rfl q key i).mp howns)
  · rcases hregister with ⟨point, p, info, append, data, rfl, hp, hfree, hservice, rfl⟩
    rcases registerMethod_cases keepsContext s point p info append data with
      hrefused | hfailed | hkept
    · rw [hrefused.2.1] at howns ⊢
      exact hold howns
    · rcases hfailed with ⟨handle, hcheck, happend, _, _, heq⟩
      rw [heq] at howns ⊢
      unfold appended
      by_cases hkey : key = info.key handle
      · subst hkey
        cases keepsContext with
        | true =>
            show MethodTable.registerCategoryAppend true s.table _ _ _ = _
            rw [registerCategoryAppend_self, hold howns]
            rfl
        | false =>
            by_cases hq : q = point
            · subst hq
              exact absurd howns (check_not_owned hp hcheck i)
            · exact absurd howns (hunshared p handle hp hcheck happend (.inr rfl) q i hq)
      · exact (registerCategoryAppend_of_ne hkey _ _).trans (hold howns)
    · rcases hkept with ⟨handle, hcheck, happend, hdata, _, heq⟩
      rw [heq] at howns ⊢
      unfold registered
      cases (owns_registered keepsContext info hp (check_ok_iff.mp hcheck).1 q key i).mp howns with
      | inl hprev =>
          have hkey : key ≠ info.key handle := by
            intro hkey
            subst hkey
            by_cases hq : q = point
            · subst hq
              exact check_not_owned hp hcheck i hprev
            · exact hunshared p handle hp hcheck happend (.inl hdata) q i hq hprev
          dsimp only
          rw [setMethodData_of_ne hkey, registerCategoryAppend_of_ne hkey, hold hprev]
      | inr hnew =>
          rcases hnew with ⟨rfl, rfl, rfl⟩
          exact append_setMethodData_self _ _ _ _
  · rcases hdestroy with ⟨point, p, rfl, hp, rfl⟩
    rcases (owns_destroy rfl q key i).mp howns with ⟨hq, howns⟩
    unfold destroy
    dsimp only
    cases hhandle : p.mHandle with
    | none => exact hold howns
    | some handle =>
        have hnot : key ∉ p.mMethods.map fun info => info.key handle := by
          intro hmem
          rcases List.mem_map.mp hmem with ⟨info, hinfo, rfl⟩
          exact hq (h.unique hs ⟨p, hp, hhandle, hinfo, rfl⟩ howns)
        exact ((unregisterAll_apply keepsContext handle p.mMethods s.table key).2 hnot).trans
          (hold howns)

/-- A registration that shares a key and reaches the table takes the key away. -/
theorem not_served_of_shared {e : Event pf} (hs : Sound s) (hstep : s.step keepsContext e = some t)
    (hshared : ¬ Unshared keepsContext s e) : ¬ Served t := by
  rcases step_cases hstep with hcreate | hregister | hdestroy
  · rcases hcreate with ⟨point, handle, rfl, _⟩
    exact absurd trivial hshared
  · rcases hregister with ⟨point, p, info, append, data, rfl, hp, hfree, hservice, rfl⟩
    have ht := hs.step hstep
    simp only [Unshared, not_forall, not_not, exists_prop] at hshared
    rcases hshared with ⟨p', handle, hp', hcheck, happend, hdata, q, i, hq, howns⟩
    obtain rfl := Option.some.inj (hp.symm.trans hp')
    intro hserved
    -- the other service point still has the key, so its context must still be there
    have howns' : Owns (s.registerMethod keepsContext point p info append data).2 q
        (info.key handle) i :=
      (step_owns_iff hstep q _ i).mpr (.inl ⟨howns, by simp⟩)
    have hentry := (ht.dispatch_iff howns').mp (hserved q _ i howns')
    rcases registerMethod_cases keepsContext s point p info append data with
      hrefused | hfailed | hkept
    · exact hrefused.2.2 handle hcheck happend
    · rcases hfailed with ⟨handle', hcheck', _, hbad, _, heq⟩
      obtain rfl := Except.ok.inj (hcheck.symm.trans hcheck')
      obtain rfl := hdata.resolve_left hbad
      rw [heq] at hentry
      simp [appended] at hentry
    · rcases hkept with ⟨handle', hcheck', _, _, _, heq⟩
      obtain rfl := Except.ok.inj (hcheck.symm.trans hcheck')
      rw [heq] at hentry
      simp only [registered, append_setMethodData_self, Option.some.injEq, MethodEntry.mk.injEq,
        true_and] at hentry
      have hheap := (hs.heap_of_owns howns).1
      rw [← hentry, hfree] at hheap
      cases hheap
  · rcases hdestroy with ⟨point, p, rfl, _⟩
    exact absurd trivial hshared

/-- Every registration is served in every state of a run exactly when no step of the run
takes a key that another service point has registered. -/
theorem served_iff_unshared (h : run (step keepsContext) (init pf) es = some t) :
    (∀ pre post s, es = pre ++ post → run (step keepsContext) (init pf) pre = some s → Served s) ↔
      Meets (step keepsContext) (Unshared keepsContext) (init pf) es := by
  constructor
  · intro hserved pre e post s hsplit hpre
    rcases run_next (hsplit ▸ h) hpre with ⟨n, hn, _⟩
    have hrun : run (step keepsContext) (init pf) (pre ++ [e]) = some n :=
      run_concat_iff.mpr ⟨s, hpre, hn⟩
    have hafter : Served n := hserved (pre ++ [e]) post n (by simp [hsplit]) hrun
    by_contra hshared
    exact not_served_of_shared (Sound.run hpre) hn hshared hafter
  · intro hmeets pre post s hsplit hpre
    subst hsplit
    have hinit : Served (init pf) := by
      intro point key info howns
      rcases howns with ⟨p, hp, _⟩
      cases hp
    exact run_induction (P := fun _ s => Served s) hinit
      (fun _ e m n hm hserved hunshared hstep => hserved.step (Sound.run hm) hunshared hstep)
      hmeets.prefix hpre

/-- The same said of the registrations of the run. -/
theorem registered_served_iff (h : run (step keepsContext) (init pf) es = some t) :
    (∀ pre post s, es = pre ++ post → run (step keepsContext) (init pf) pre = some s →
      ∀ point key info, Registered keepsContext pre point key info →
        s.dispatch key = .handled info) ↔
      Meets (step keepsContext) (Unshared keepsContext) (init pf) es := by
  rw [← served_iff_unshared h]
  constructor
  · intro hserved pre post s hsplit hpre point key info howns
    have hregistered := (owns_iff_registered hpre point key info).mp howns
    exact hserved pre post s hsplit hpre point key info hregistered
  · intro hserved pre post s hsplit hpre point key info hregistered
    have howns := (owns_iff_registered hpre point key info).mpr hregistered
    exact hserved pre post s hsplit hpre point key info howns

theorem registered_served_of_one :
    (∀ pre post s, [.create 1 (some 7), .ofInfo 1 (trueMethod 1 10) none none] = pre ++ post →
      run (step true) (init .ofEmptyObject) pre = some s →
      ∀ point key info, Registered true pre point key info → s.dispatch key = .handled info) ↔
      Meets (step true) (Unshared true) (init .ofEmptyObject)
        [.create 1 (some 7), .ofInfo 1 (trueMethod 1 10) none none] :=
  registered_served_iff rfl

/-- Two service points register `/m` on one handle, and the second is destroyed: the first
is alive and its method is gone. -/
theorem registered_not_served :
    ∃ es t, run (step true) (init .ofEmptyObject) es = some t ∧
      Registered true es 1 ⟨7, "/", "m"⟩ (trueMethod 1 10) ∧
      t.dispatch ⟨7, "/", "m"⟩ = .removed := by
  refine ⟨[.create 1 (some 7), .create 2 (some 7), .ofInfo 1 (trueMethod 1 10) none none,
    .ofInfo 2 (trueMethod 2 20) none none, .destroy 2], _, rfl, ?_, rfl⟩
  refine ⟨[.create 1 (some 7), .create 2 (some 7)], none, none,
    [.ofInfo 2 (trueMethod 2 20) none none, .destroy 2], _, rfl, rfl, ?_, ?_⟩
  · exact ⟨_, rfl, rfl, rfl, rfl, rfl⟩
  · simp [Event.ofInfo]

end Registry

end LSHelpers
