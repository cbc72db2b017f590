import LSHelpers.Call.Linked

/-!
# The table of calls

With `makeCall` in one piece, `mCalls` holds exactly the calls made with a handler that
are still open. The one-thread machine is matched by the two-thread one, whose
invariants it inherits.
-/

namespace LSHelpers

namespace Caller

open Transition

/-! ## One thread as a case of two -/

/-- The step of two threads that an event is, if it is not a `makeCall`. -/
def CallEvent.single : CallEvent → Option Event
  | .makeCall _ _ _ => none
  | .reply token => some (.reply token)
  | .cancelCall token => some (.cancelCall token)
  | .destroy => some .destroy

theorem makeCall_none (s : Caller) (p : ServicePoint) (hasHandler oneReply : Bool) :
    (s.makeCall p hasHandler oneReply none).2 = s := by
  unfold makeCall
  split_ifs <;> rfl

/-- The ways an event of one thread can go. -/
theorem callStep_cases {s n : Caller} {e : CallEvent} (hstep : callStep s e = some n) :
    (∃ p oneReply token, e = .makeCall true oneReply (some token) ∧ s.point = some p ∧
      p.mHandle.isSome = true ∧ s.freshToken token = true ∧ n = s.made p oneReply token) ∨
    (∃ p token, e = .makeCall false true (some token) ∧ s.point = some p ∧
      p.mHandle.isSome = true ∧ s.freshToken token = true ∧ n = s.fireAndForget token) ∨
    (∃ hasHandler oneReply, e = .makeCall hasHandler oneReply none ∧ n = s) ∨
    (∃ e', e.single = some e' ∧ (s.pending = [] → step s e' = some n)) := by
  cases e with
  | makeCall hasHandler oneReply outcome =>
      rcases Option.bind_eq_some_iff.mp hstep with ⟨p, hp, hite⟩
      cases outcome with
      | none =>
          obtain rfl : n = s := by
            simpa [canGive, makeCall_none, eq_comm] using hite
          exact .inr (.inr (.inl ⟨_, _, rfl, rfl⟩))
      | some token =>
          split at hite
          · rename_i hgive
            simp only [canGive, Bool.and_eq_true, Bool.or_eq_true] at hgive
            rcases hgive with ⟨⟨hhandle, hreach⟩, hfresh⟩
            have hnone : p.mHandle.isNone = false := by simpa using hhandle
            cases hasHandler with
            | true =>
                refine .inl ⟨p, oneReply, token, rfl, hp, hhandle, hfresh, ?_⟩
                simpa [makeCall, hnone] using (Option.some.inj hite).symm
            | false =>
                obtain rfl : oneReply = true := by simpa using hreach
                refine .inr (.inl ⟨p, token, rfl, hp, hhandle, hfresh, ?_⟩)
                simpa [makeCall, hnone] using (Option.some.inj hite).symm
          · cases hite
  | reply token => exact .inr (.inr (.inr ⟨_, rfl, fun _ => hstep⟩))
  | cancelCall token =>
      refine .inr (.inr (.inr ⟨_, rfl, ?_⟩))
      intro hpending
      simpa [step, callStep, hpending] using hstep
  | destroy =>
      refine .inr (.inr (.inr ⟨_, rfl, ?_⟩))
      intro hpending
      rcases Option.map_eq_some_iff.mp hstep with ⟨p, hp, rfl⟩
      simp [step, hp, hpending]

/-- The parts of `makeCall`, one after the other. -/
theorem step_made {s : Caller} {p : ServicePoint} (hp : s.point = some p)
    (hhandle : p.mHandle.isSome = true) (hpending : s.pending = []) (oneReply : Bool)
    {token : LSMessageToken} (hfresh : s.freshToken token = true) :
    run step s [.issue oneReply token, .store s.nextAddress, .insert s.nextAddress] =
      some (s.made p oneReply token) := by
  rcases List.append_eq_nil_iff.mp hpending with ⟨hissued, hstored⟩
  have hissue : step s (.issue oneReply token) = some (s.issue oneReply token) := by
    simp [step, withHandle, hp, hhandle, hfresh]
  have hstore : step (s.issue oneReply token) (.store s.nextAddress) =
      some ((s.issue oneReply token).store ⟨s.nextAddress, token⟩) := by
    simp [step, withHandle, issue, hp, hhandle, hissued]
  have hinsert : step ((s.issue oneReply token).store ⟨s.nextAddress, token⟩)
      (.insert s.nextAddress) = some (s.made p oneReply token) := by
    simp [step, withHandle, issue, store, made, hp, hhandle, hstored]
  simp only [run, hissue, hstore, hinsert, Option.bind_some]

/-- Between two events of one thread: linked, and no `makeCall` under way. -/
def Idle (s : Caller) : Prop := s.Linked ∧ s.pending = []

theorem idle_init (handle : Option LSHandle) : (init handle).Idle := ⟨linked_init handle, rfl⟩

theorem Idle.not_early {s : Caller} (h : s.Idle) (e : Event) : ¬s.EarlyReply e := by
  intro hearly
  rcases hearly with ⟨i, hi, _⟩
  rw [h.2] at hi
  cases hi

/-- An event of one thread is a run of two in which no reply comes early. -/
theorem Idle.steps {s n : Caller} {e : CallEvent} (h : s.Idle)
    (hstep : Caller.callStep s e = some n) :
    ∃ events, run step s events = some n ∧
      Meets step (fun m e => ¬m.EarlyReply e) s events := by
  have hquiet {events : List Event} (hevents : ∀ e ∈ events, ∀ t, e ≠ .reply t) :
      Meets step (fun m e => ¬m.EarlyReply e) s events := by
    apply Meets.of_forall
    intro e he m hearly
    rcases hearly with ⟨_, _, _, hreply⟩
    exact hevents e he _ hreply
  rcases callStep_cases hstep with
    ⟨p, oneReply, token, rfl, hp, hhandle, hfresh, rfl⟩ | ⟨p, token, rfl, hp, hhandle, hfresh, rfl⟩ |
      ⟨hasHandler, oneReply, rfl, rfl⟩ | ⟨e', _, hone⟩
  · exact ⟨_, step_made hp hhandle h.2 oneReply hfresh, hquiet (by simp)⟩
  · refine ⟨[.fireAndForget token], ?_, hquiet (by simp)⟩
    simp [run, step, withHandle, hp, hhandle, hfresh]
  · exact ⟨[], rfl, meets_nil⟩
  · refine ⟨[e'], run_cons_iff.mpr ⟨n, hone h.2, rfl⟩, ?_⟩
    exact meets_cons_iff.mpr ⟨h.not_early e', fun _ _ => meets_nil⟩

theorem Idle.callStep {s n : Caller} {e : CallEvent} (h : s.Idle)
    (hstep : Caller.callStep s e = some n) : n.Idle := by
  rcases h.steps hstep with ⟨events, hrun, hmeets⟩
  refine ⟨linked_of_run h.1 hmeets hrun, ?_⟩
  rcases callStep_cases hstep with
    ⟨p, oneReply, token, rfl, _, _, _, rfl⟩ | ⟨p, token, rfl, _, _, _, rfl⟩ |
      ⟨hasHandler, oneReply, rfl, rfl⟩ | ⟨e', he', hone⟩
  · rcases List.append_eq_nil_iff.mp h.2 with ⟨hissued, hstored⟩
    simp [pending, made, insert, store, issue, eraseCall, hissued, hstored]
  · exact h.2
  · exact h.2
  · rcases step_pending (hone h.2) with
      ⟨_, _, rfl, _⟩ | ⟨_, _, rfl, _⟩ | ⟨_, _, rfl, _⟩ | ⟨hissued, hstored, _⟩
    · cases e <;> simp [CallEvent.single] at he'
    · cases e <;> simp [CallEvent.single] at he'
    · cases e <;> simp [CallEvent.single] at he'
    · rw [pending, hissued, hstored]
      exact h.2

theorem Idle.refines {s n : Caller} {events : List CallEvent} (h : s.Idle)
    (hrun : run Caller.callStep s events = some n) :
    ∃ steps, run step s steps = some n ∧ Meets step (fun m e => ¬m.EarlyReply e) s steps := by
  have hmatched : ∃ steps, run step (id s) steps = some (id n) ∧
      Meets step (fun m e => ¬m.EarlyReply e) (id s) steps :=
    run_refine (fun _ _ _ hm hn => hm.callStep hn) (fun _ _ _ hm hn => hm.steps hn) h hrun
  exact hmatched

theorem idle_of_run {handle : Option LSHandle} {events : List CallEvent} {s : Caller}
    (h : run Caller.callStep (init handle) events = some s) : s.Idle :=
  run_invariant (fun _ _ _ hm hn => hm.callStep hn) h (idle_init handle)

/-! ## Open calls -/

/-- The event ends the handling of replies to the calls made before it with a token. -/
def CallEvent.closes (token : LSMessageToken) (oneReply : Bool) : CallEvent → Bool
  | .cancelCall t => t == token
  | .reply t => oneReply && t == token
  | .destroy => true
  | .makeCall _ _ _ => false

/-- A call made with a handler under the token and not closed since. -/
def Open (events : List CallEvent) (token : LSMessageToken) (oneReply : Bool) : Prop :=
  ∃ pre post, events = pre ++ .makeCall true oneReply (some token) :: post ∧
    ∀ e ∈ post, e.closes token oneReply = false

theorem not_open_nil (token : LSMessageToken) (oneReply : Bool) : ¬Open [] token oneReply := by
  intro hopen
  rcases hopen with ⟨pre, post, hsplit, _⟩
  simp at hsplit

theorem open_concat_iff {events : List CallEvent} {e : CallEvent} {token : LSMessageToken}
    {oneReply : Bool} :
    Open (events ++ [e]) token oneReply ↔
      e = .makeCall true oneReply (some token) ∨
        (Open events token oneReply ∧ e.closes token oneReply = false) := by
  constructor
  · intro hopen
    rcases hopen with ⟨pre, post, hsplit, hpost⟩
    rcases List.eq_nil_or_concat post with rfl | ⟨post, last, rfl⟩
    · left
      exact (List.append_inj' hsplit rfl).2 |> List.singleton_inj.mp
    · right
      rw [List.concat_eq_append, ← List.cons_append, ← List.append_assoc] at hsplit
      rcases List.append_inj' hsplit rfl with ⟨rfl, hlast⟩
      obtain rfl := List.singleton_inj.mp hlast
      exact ⟨⟨pre, post, rfl, fun x hx => hpost x (by simp [hx])⟩, hpost e (by simp)⟩
  · intro hlast
    rcases hlast with rfl | ⟨⟨pre, post, rfl, hpost⟩, he⟩
    · exact ⟨events, [], rfl, by simp⟩
    · refine ⟨pre, post ++ [e], by simp, fun x hx => ?_⟩
      rcases List.mem_append.mp hx with hx | hx
      · exact hpost x hx
      · rw [List.mem_singleton] at hx
        exact hx ▸ he

/-- The table has a call of the given kind under the token. -/
def Holds (s : Caller) (token : LSMessageToken) (oneReply : Bool) : Prop :=
  ∃ a call, s.entryAt token = some a ∧ s.heap a = some call ∧ call.oneReply = oneReply

theorem Holds.not_fresh {s : Caller} {token : LSMessageToken} {oneReply : Bool} (hs : s.Linked)
    (h : s.Holds token oneReply) : s.freshToken token = false := by
  rcases h with ⟨a, _, hentry, _⟩
  by_contra hfresh
  rw [Bool.not_eq_false, freshToken_iff] at hfresh
  exact hfresh.2 _ (hs.entry token a hentry).1 rfl

theorem Holds.unique {s : Caller} {token : LSMessageToken} {oneReply oneReply' : Bool}
    (h : s.Holds token oneReply) (h' : s.Holds token oneReply') : oneReply = oneReply' := by
  rcases h with ⟨a, call, hentry, hcall, rfl⟩
  rcases h' with ⟨a', call', hentry', hcall', rfl⟩
  obtain rfl := Option.some.inj (hentry.symm.trans hentry')
  obtain rfl := Option.some.inj (hcall.symm.trans hcall')
  rfl

/-- A call that is made is held, and the others are as before. -/
theorem holds_makeCall_iff {s : Caller} (hs : s.Linked) {p : ServicePoint} (hp : s.point = some p)
    {oneReply : Bool} {t : LSMessageToken} (hfresh : s.freshToken t = true)
    (token : LSMessageToken) (kind : Bool) :
    (s.made p oneReply t).Holds token kind ↔
      (token = t ∧ kind = oneReply) ∨ s.Holds token kind := by
  have hnone : p.mCalls.lookup t = none := by
    rw [← entryAt_of_point hp]
    exact hs.entryAt_eq_none fun a hmem => (freshToken_iff.mp hfresh).2 _ hmem rfl
  have hheap : (s.made p oneReply t).heap =
      Function.update s.heap s.nextAddress (some ⟨t, oneReply⟩) := by
    simp [made, insert, store, issue, eraseCall, hnone]
  have hentry (token : LSMessageToken) : (s.made p oneReply t).entryAt token =
      if token = t then some s.nextAddress else p.mCalls.lookup token :=
    entryAt_insert _ token
  unfold Holds
  rw [hheap]
  by_cases ht : token = t
  · subst ht
    have hfree : ¬s.Holds token kind := fun h => by simp [h.not_fresh hs] at hfresh
    simp only [hentry, if_true, true_and]
    constructor
    · intro hholds
      rcases hholds with ⟨a, call, ha, hcall, rfl⟩
      obtain rfl := Option.some.inj ha
      rw [Function.update_self] at hcall
      obtain rfl := Option.some.inj hcall
      exact .inl rfl
    · intro hmade
      rcases hmade with rfl | hholds
      · exact ⟨s.nextAddress, ⟨token, kind⟩, rfl, Function.update_self .., rfl⟩
      · exact absurd hholds hfree
  · simp only [hentry, ht, if_false, false_and, false_or, ← entryAt_of_point hp]
    have hold {a : Nat} (ha : s.entryAt token = some a) : a ≠ s.nextAddress :=
      Nat.ne_of_lt (hs.used token a (hs.entry token a ha).1)
    constructor
    · intro hholds
      rcases hholds with ⟨a, call, ha, hcall, rfl⟩
      rw [Function.update_of_ne (hold ha)] at hcall
      exact ⟨a, call, ha, hcall, rfl⟩
    · intro hholds
      rcases hholds with ⟨a, call, ha, hcall, rfl⟩
      exact ⟨a, call, ha, by rw [Function.update_of_ne (hold ha), hcall], rfl⟩

/-- A call that is closed is not held, and the others are as before. -/
theorem holds_close_iff {s : Caller} (hs : s.Linked) {p : ServicePoint} (hp : s.point = some p)
    {t : LSMessageToken} {a : Nat} (ht : s.entryAt t = some a) (token : LSMessageToken)
    (kind : Bool) :
    ((s.lsCallCancel t).eraseCall p t).Holds token kind ↔ token ≠ t ∧ s.Holds token kind := by
  have hlookup : p.mCalls.lookup t = some a := entryAt_of_point hp t ▸ ht
  have hheap : ((s.lsCallCancel t).eraseCall p t).heap = Function.update s.heap a none := by
    simp [eraseCall, hlookup, lsCallCancel]
  unfold Holds
  rw [hheap, entryAt_eraseCall]
  by_cases htoken : token = t
  · simp [htoken]
  · simp only [htoken, if_false, ne_eq, not_false_eq_true, true_and, ← entryAt_of_point hp]
    have hother {x : Nat} (hx : s.entryAt token = some x) : x ≠ a := by
      intro heq
      subst heq
      exact htoken (hs.contexts token t x (hs.entry token x hx).1 (hs.entry t x ht).1)
    constructor
    · intro hholds
      rcases hholds with ⟨x, call, hx, hcall, rfl⟩
      rw [Function.update_of_ne (hother hx)] at hcall
      exact ⟨x, call, hx, hcall, rfl⟩
    · intro hholds
      rcases hholds with ⟨x, call, hx, hcall, rfl⟩
      exact ⟨x, call, hx, by rw [Function.update_of_ne (hother hx), hcall], rfl⟩

/-- Every event but a `makeCall` leaves held what it does not close. -/
theorem holds_step_iff {s n : Caller} (h : s.Idle) {e : CallEvent} {e' : Event}
    (he : e.single = some e') (hstep : Caller.step s e' = some n) (token : LSMessageToken)
    (kind : Bool) : n.Holds token kind ↔ s.Holds token kind ∧ e.closes token kind = false := by
  have hs := h.1
  have hkind {a : Nat} {call : Call} {t : LSMessageToken} (hentry : s.entryAt t = some a)
      (hobject : s.heap a = some call) (hholds : s.Holds t kind) : kind = call.oneReply :=
    hholds.unique ⟨a, call, hentry, hobject, rfl⟩
  have hunknown {t : LSMessageToken} (hnone : s.entryAt t = none) : ¬s.Holds t kind := by
    intro hholds
    rcases hholds with ⟨a, _, hentry, _⟩
    rw [hnone] at hentry
    cases hentry
  have hstepped := hs.stepped (h.not_early e') hstep
  cases e with
  | makeCall _ _ _ => cases he
  | reply t =>
      obtain rfl := Option.some.inj he
      cases hstepped with
      | replyUnheard hlive =>
          refine ⟨fun hholds => ⟨hholds, ?_⟩, And.left⟩
          by_cases ht : t = token
          · exact absurd hholds (hunknown (ht ▸ (hs.unheard hlive).2))
          · simp [CallEvent.closes, ht]
      | replyMore hlive hobject hmore =>
          refine ⟨fun hholds => ⟨hholds, ?_⟩, And.left⟩
          by_cases ht : t = token
          · subst ht
            have hentry := (hs.owned t _ hlive).resolve_left (by simp [h.2])
            simp [CallEvent.closes, hkind hentry hobject hholds, hmore]
          · simp [CallEvent.closes, ht]
      | replyLast hp hentry hobject hone =>
          refine (holds_close_iff hs hp hentry token kind).trans ?_
          by_cases ht : token = t
          · subst ht
            refine iff_of_false (by simp) ?_
            intro hboth
            rcases hboth with ⟨hholds, hcloses⟩
            simp [CallEvent.closes, hkind hentry hobject hholds, hone] at hcloses
          · simp [CallEvent.closes, ht, Ne.symm ht]
  | cancelCall t =>
      obtain rfl := Option.some.inj he
      cases hstepped with
      | cancelUnknown _ hentry =>
          refine ⟨fun hholds => ⟨hholds, ?_⟩, And.left⟩
          by_cases ht : t = token
          · exact absurd hholds (hunknown (ht ▸ hentry))
          · simp [CallEvent.closes, ht]
      | cancelKnown hp hentry =>
          rw [holds_close_iff hs hp hentry, and_comm]
          refine and_congr_right fun _ => ?_
          simpa [CallEvent.closes] using ne_comm
  | destroy =>
      obtain rfl := Option.some.inj he
      cases hstepped with
      | destroy hp _ => simp [CallEvent.closes, Holds, Caller.destroy, entryAt]

/-- The table holds exactly the open calls. -/
theorem holds_iff_open {handle : Option LSHandle} {events : List CallEvent} {s : Caller}
    (h : run Caller.callStep (init handle) events = some s) (token : LSMessageToken) (kind : Bool) :
    s.Holds token kind ↔ Open events token kind := by
  refine run_history (P := fun events s => ∀ token kind, s.Holds token kind ↔ Open events token kind)
    ?_ ?_ h token kind
  · intro token kind
    exact iff_of_false (by simp [Holds, init, entryAt]) (not_open_nil token kind)
  · intro events e m n hrun hm hstep token kind
    have hidle := idle_of_run hrun
    rw [open_concat_iff, ← hm token kind]
    rcases callStep_cases hstep with
      ⟨p, oneReply, t, rfl, hp, _, hfresh, rfl⟩ | ⟨p, t, rfl, hp, _, _, rfl⟩ |
        ⟨hasHandler, oneReply, rfl, rfl⟩ | ⟨e', he', hone⟩
    · rw [holds_makeCall_iff hidle.1 hp hfresh]
      simp [CallEvent.closes, eq_comm, and_comm]
    · simp [CallEvent.closes, Holds, fireAndForget, entryAt]
    · simp [CallEvent.closes]
    · have hcall : e ≠ .makeCall true kind (some token) := by
        intro heq
        rw [heq] at he'
        cases he'
      rw [holds_step_iff hidle he' (hone hidle.2)]
      simp [hcall]

/-! ## Handlers of calls that are over -/

/-- A call that is not live is not started any more. -/
theorem started_of_run {s n : Caller} {events : List Event} (hs : s.Linked)
    (hmeets : Meets Caller.step (fun m e => ¬m.EarlyReply e) s events)
    (h : run Caller.step s events = some n) :
    s.nextAddress ≤ n.nextAddress ∧
      (∀ t a, ⟨t, some a⟩ ∈ n.live → a < s.nextAddress → ⟨t, some a⟩ ∈ s.live) ∧
      ∃ later, n.started = s.started ++ later ∧
        ∀ x ∈ later, x.address < s.nextAddress → ∃ t, ⟨t, some x.address⟩ ∈ s.live := by
  have hinv : n.Linked ∧ s.nextAddress ≤ n.nextAddress ∧
      (∀ t a, ⟨t, some a⟩ ∈ n.live → a < s.nextAddress → ⟨t, some a⟩ ∈ s.live) ∧
      ∃ later, n.started = s.started ++ later ∧
        ∀ x ∈ later, x.address < s.nextAddress → ∃ t, ⟨t, some x.address⟩ ∈ s.live := by
    refine run_induction (P := fun _ n => n.Linked ∧ s.nextAddress ≤ n.nextAddress ∧
      (∀ t a, ⟨t, some a⟩ ∈ n.live → a < s.nextAddress → ⟨t, some a⟩ ∈ s.live) ∧
      ∃ later, n.started = s.started ++ later ∧
        ∀ x ∈ later, x.address < s.nextAddress → ∃ t, ⟨t, some x.address⟩ ∈ s.live)
      ⟨hs, le_rfl, fun _ _ hmem _ => hmem, [], by simp, by simp⟩ ?_ hmeets h
    intro events e m k hm hprev hearly hk
    rcases hprev with ⟨hlinked, hnext, hlive, later, hlater, hcalled⟩
    rcases hlinked.step_live hearly hk with ⟨hnext', hlive'⟩
    refine ⟨hlinked.step hearly hk, Nat.le_trans hnext hnext', ?_, ?_⟩
    · intro t a hmem ha
      exact hlive t a (hlive' t a hmem (Nat.lt_of_lt_of_le ha hnext)) ha
    · rcases step_started hk with hsame | ⟨t, a, oneReply, _, hmem, hmore⟩
      · exact ⟨later, hsame.trans hlater, hcalled⟩
      · refine ⟨later ++ [⟨a, oneReply⟩], by rw [hmore, hlater, List.append_assoc], ?_⟩
        intro x hx hold
        rcases List.mem_append.mp hx with hx | hx
        · exact hcalled x hx hold
        · rw [List.mem_singleton] at hx
          subst hx
          exact ⟨t, hlive t a hmem hold⟩
  exact hinv.2

/-- Nothing starts after the service point is destroyed. -/
theorem started_of_destroyed {s n : Caller} {events : List Event} (hs : s.Linked)
    (hgone : s.point = none) (hlive : ∀ t a, ⟨t, some a⟩ ∉ s.live)
    (hmeets : Meets Caller.step (fun m e => ¬m.EarlyReply e) s events)
    (h : run Caller.step s events = some n) : n.started = s.started := by
  have hinv : n.Linked ∧ n.point = none ∧ (∀ t a, ⟨t, some a⟩ ∉ n.live) ∧
      n.started = s.started := by
    refine run_induction (P := fun _ n => n.Linked ∧ n.point = none ∧
      (∀ t a, ⟨t, some a⟩ ∉ n.live) ∧ n.started = s.started)
      ⟨hs, hgone, hlive, rfl⟩ ?_ hmeets h
    intro events e m k hm hprev hearly hk
    rcases hprev with ⟨hlinked, hpoint, hnone, hstarted⟩
    refine ⟨hlinked.step hearly hk, ?_⟩
    have hempty := List.append_eq_nil_iff.mp (hlinked.gone hpoint)
    cases hlinked.stepped hearly hk with
    | issue hp _ | insert hp _ | replyLast hp _ _ _ | cancelKnown hp _ | destroy hp _ =>
        rw [hpoint] at hp
        cases hp
    | store hmem => simp [hempty.1] at hmem
    | replyMore hmem _ _ => exact absurd hmem (hnone _ _)
    | fireAndForget _ =>
        refine ⟨hpoint, ?_, hstarted⟩
        intro t a hmem
        exact hnone t a (by simpa [fireAndForget] using hmem)
    | replyUnheard _ | cancelUnknown _ _ =>
        exact ⟨hpoint, fun t a hmem => hnone t a (mem_live_lsCallCancel.mp hmem).1, hstarted⟩
  exact hinv.2.2.2

/-! ## A whole run -/

theorem live_of_cancelCall {s n : Caller} {t : LSMessageToken} (h : s.Idle)
    (hstep : Caller.callStep s (.cancelCall t) = some n) {b : BusCall} (hb : b ∈ n.live) :
    b ∈ s.live ∧ b.token ≠ t := by
  have hn : Caller.step s (.cancelCall t) = some n := by
    simpa [Caller.step, Caller.callStep, h.2] using hstep
  cases h.1.stepped (h.not_early _) hn with
  | cancelUnknown _ _ => exact mem_live_lsCallCancel.mp hb
  | cancelKnown _ _ => exact mem_live_lsCallCancel.mp hb

/-- The object of a call that is made is at the next address. -/
theorem live_of_makeCall {s n : Caller} {oneReply : Bool} {t : LSMessageToken}
    (hstep : Caller.callStep s (.makeCall true oneReply (some t)) = some n) :
    ⟨t, some s.nextAddress⟩ ∈ n.live ∧ s.nextAddress < n.nextAddress := by
  rcases callStep_cases hstep with
    ⟨p, _, _, he, _, _, _, rfl⟩ | ⟨_, _, he, _⟩ | ⟨_, _, he, _⟩ | ⟨_, he, _⟩
  · cases he
    constructor
    · simp [made, insert, store, issue, eraseCall]
    · simp [made, insert, store, issue, eraseCall]
  all_goals cases he

/-- The handler of a call made under a token does not start after the token is cancelled. -/
theorem started_of_cancelled {k l m n s : Caller} {oneReply : Bool} {t : LSMessageToken}
    {mid post : List CallEvent} (hk : k.Idle)
    (hmake : Caller.callStep k (.makeCall true oneReply (some t)) = some l)
    (hmid : run Caller.callStep l mid = some m)
    (hcancel : Caller.callStep m (.cancelCall t) = some n)
    (hpost : run Caller.callStep n post = some s) :
    ∃ later, s.started = n.started ++ later ∧ ∀ x ∈ later, x.address ≠ k.nextAddress := by
  have hl := hk.callStep hmake
  have hm : m.Idle := run_invariant (fun _ _ _ hx hy => hx.callStep hy) hmid hl
  have hn := hm.callStep hcancel
  rcases live_of_makeCall hmake with ⟨hlive, hused⟩
  rcases hl.refines hmid with ⟨_, hrun, hmeets⟩
  rcases started_of_run hl.1 hmeets hrun with ⟨hnext, hkept, _⟩
  rcases hm.steps hcancel with ⟨_, hrun', hmeets'⟩
  have hnext' : m.nextAddress ≤ n.nextAddress := (started_of_run hm.1 hmeets' hrun').1
  rcases hn.refines hpost with ⟨_, hrun'', hmeets''⟩
  rcases started_of_run hn.1 hmeets'' hrun'' with ⟨_, _, later, hlater, hcalled⟩
  refine ⟨later, hlater, ?_⟩
  intro x hx heq
  rcases hcalled x hx (by omega) with ⟨t', ht'⟩
  rcases live_of_cancelCall hm hcancel ht' with ⟨hmlive, hne⟩
  have hllive := hkept t' x.address hmlive (by omega)
  rw [heq] at hllive
  exact hne (hl.1.contexts t' t k.nextAddress hllive hlive)

/-- What is asked of a service point after a run: the table has the open calls, each under
its own token; a `makeCall` that throws changes nothing; no handler of a cancelled call, or
of any call once the object is destroyed, starts; and a reply finds its object. -/
structure CallsInStep (handle : Option LSHandle) (events : List CallEvent) (s : Caller) :
    Prop where
  keys : ∀ p, s.point = some p → ∀ t, t ∈ p.mCalls ↔ ∃ oneReply, Open events t oneReply
  tokens : ∀ p, s.point = some p → ∀ t a, p.mCalls.lookup t = some a →
    ∃ call, s.heap a = some call ∧ call.token = t
  thrown : ∀ p hasHandler oneReply outcome e,
    (s.makeCall p hasHandler oneReply outcome).1 = .error e →
      (s.makeCall p hasHandler oneReply outcome).2 = s
  cancelled : ∀ pre oneReply mid t post k n,
    events = pre ++ .makeCall true oneReply (some t) :: mid ++ .cancelCall t :: post →
    run callStep (init handle) pre = some k →
    run callStep (init handle) (pre ++ .makeCall true oneReply (some t) :: mid ++ [.cancelCall t]) =
      some n →
    ∃ later, s.started = n.started ++ later ∧ ∀ x ∈ later, x.address ≠ k.nextAddress
  destroyed : ∀ pre post n, events = pre ++ .destroy :: post →
    run callStep (init handle) (pre ++ [.destroy]) = some n → s.started = n.started
  answerable : ∀ b ∈ s.live, ∃ n, s.reply b.token = some n

theorem callsInStep_of_run (handle : Option LSHandle) (events : List CallEvent) (s : Caller)
    (h : run callStep (init handle) events = some s) : CallsInStep handle events s where
  keys := by
    intro p hp t
    simp only [← holds_iff_open h]
    have hs := (idle_of_run h).1
    rw [← AList.lookup_isSome, ← entryAt_of_point hp, Option.isSome_iff_exists]
    constructor
    · intro hentry
      rcases hentry with ⟨a, ha⟩
      rcases (hs.entry t a ha).2 with ⟨call, hcall, _⟩
      exact ⟨call.oneReply, a, call, ha, hcall, rfl⟩
    · intro hholds
      rcases hholds with ⟨oneReply, a, _, ha, _⟩
      exact ⟨a, ha⟩
  tokens := by
    intro p hp t a ha
    rw [← entryAt_of_point hp] at ha
    exact ((idle_of_run h).1.entry t a ha).2
  thrown := by
    intro p hasHandler oneReply outcome e he
    cases outcome with
    | none => exact makeCall_none s p hasHandler oneReply
    | some t =>
        unfold makeCall at he ⊢
        split_ifs at he ⊢ <;> rfl
  cancelled := by
    intro pre oneReply mid t post k n hsplit hk hn
    subst hsplit
    rw [List.append_assoc, List.cons_append] at hn h
    rcases run_next hn hk with ⟨l, hmake, hrest⟩
    rcases run_concat_iff.mp hrest with ⟨m, hmid, hcancel⟩
    rcases run_next h hk with ⟨l', hmake', hrest'⟩
    obtain rfl : l = l' := Option.some.inj (hmake.symm.trans hmake')
    rcases run_next hrest' hmid with ⟨n', hcancel', hpost⟩
    obtain rfl : n = n' := Option.some.inj (hcancel.symm.trans hcancel')
    exact started_of_cancelled (idle_of_run hk) hmake hmid hcancel hpost
  destroyed := by
    intro pre post n hsplit hn
    subst hsplit
    rcases run_concat_iff.mp hn with ⟨m, hm, hdestroy⟩
    rcases run_next h hm with ⟨n', hdestroy', hpost⟩
    obtain rfl : n = n' := Option.some.inj (hdestroy.symm.trans hdestroy')
    have hidle := idle_of_run hm
    rcases Option.map_eq_some_iff.mp hdestroy with ⟨p, hp, rfl⟩
    rcases hidle.1.destroy hp hidle.2 with ⟨hlinked, hlive⟩
    rcases (hidle.callStep hdestroy).refines hpost with ⟨_, hrun, hmeets⟩
    exact started_of_destroyed hlinked rfl hlive hmeets hrun
  answerable := fun _ hb => (idle_of_run h).1.reply_enabled hb

/-- Calls of every kind, replied to, cancelled, refused, and left to the destructor. -/
theorem callsInStep_of_run_mixed :
    let events : List CallEvent :=
      [.makeCall true false (some 1), .makeCall true true (some 2), .makeCall false true (some 3),
        .reply 1, .reply 2, .makeCall true true none, .cancelCall 1, .cancelCall 9,
        .makeCall true true (some 1), .reply 3, .destroy]
    ∃ s, run callStep (init (some 1)) events = some s ∧ CallsInStep (some 1) events s :=
  ⟨_, rfl, callsInStep_of_run (some 1) _ _ rfl⟩

end Caller

end LSHelpers
