import LSHelpers.Request.Deferred

/-!
# What escapes from a call

The catch clauses of `handleLunaCall` reply without a try block around them, and so does
the destructor of the request, where an exception ends the program. A run of a call lets
nothing escape exactly as long as the bus takes those replies.
-/

namespace LSHelpers

namespace Exchange

open Transition

variable (pf : Platform) (b : Bus)

/-- Nothing has escaped: the program goes on, and if `handleLunaCall` is out it has returned
a Boolean. -/
structure Contained (s : Exchange) : Prop where
  alive : s.terminated = false
  returns : ∀ result, s.phase = .finished result → ∃ handled, result = .ok handled

/-- The event sends a reply where nothing catches the failure of the bus: the reply of a
catch clause, or the stock reply of a request that is destroyed unanswered. -/
def unguarded (s : Exchange) : Event → Bool
  | .handlerThrows e => (thrownReply pf e).isSome
  | .settle => (s.request.map JsonRequest.mDeferred).getD false && s.copies == 0
  | .act .drop =>
      !s.scope && s.copies == 1 && (s.request.map fun r => !r.mResponded).getD false
  | .act .defer | .act .copy | .act (.invoke _) | .handlerReturns _ => false

/-- The bus takes the reply of such an event. -/
def ReplyTaken (s : Exchange) (e : Event) : Prop :=
  s.unguarded pf e = true → b.respond s.attempts = none

instance (s : Exchange) (e : Event) : Decidable (ReplyTaken pf b s e) :=
  inferInstanceAs (Decidable (_ → _))

/-- Until the flags are settled the scope holds the request, marked as responded. -/
def Held (s : Exchange) : Prop :=
  (∀ result, s.phase ≠ .finished result) →
    s.scope = true ∧ ∃ r, s.request = some r ∧ r.mResponded = true

/-! ## Contained steps -/

/-- A step that stays where it is lets out what ends the program in it. -/
theorem contained_iff_of_phase {s t : Exchange} {ends : Bool} (hphase : t.phase = s.phase)
    (hends : t.terminated = (s.terminated || ends)) :
    t.Contained ↔ s.Contained ∧ ends = false := by
  constructor
  · intro ht
    have halive : (s.terminated || ends) = false := hends.symm.trans ht.alive
    rw [Bool.or_eq_false_iff] at halive
    exact ⟨⟨halive.1, fun result hresult => ht.returns result (hphase.trans hresult)⟩, halive.2⟩
  · intro hs
    constructor
    · rw [hends, hs.1.alive, hs.2]
      rfl
    · intro result hresult
      exact hs.1.returns result (hphase.symm.trans hresult)

theorem contained_congr {s t : Exchange} (hphase : t.phase = s.phase)
    (hends : t.terminated = s.terminated) : t.Contained ↔ s.Contained := by
  have hnothing : t.terminated = (s.terminated || false) := by rw [hends, Bool.or_false]
  rw [contained_iff_of_phase hphase hnothing]
  simp

theorem contained_iff_alive {s : Exchange} (h : ∀ result, s.phase ≠ .finished result) :
    s.Contained ↔ s.terminated = false :=
  ⟨Contained.alive, fun halive => ⟨halive, fun result hresult => absurd hresult (h result)⟩⟩

theorem contained_finished_iff {s : Exchange} (result : Except Exn Bool)
    (h : s.phase = .finished result) :
    s.Contained ↔ s.terminated = false ∧ ∃ handled, result = .ok handled := by
  constructor
  · exact fun hs => ⟨hs.alive, hs.returns result h⟩
  · intro hs
    refine ⟨hs.1, ?_⟩
    intro result' hresult'
    obtain rfl : result = result' := Phase.finished.inj (h.symm.trans hresult')
    exact hs.2

theorem contained_returned_iff {s : Exchange} (handled : Bool)
    (h : s.phase = .finished (.ok handled)) : s.Contained ↔ s.terminated = false := by
  rw [contained_finished_iff _ h]
  simp

theorem reply_contained_iff (s : Exchange) (payload : Json) :
    (catchClause.reply b s payload).Contained ↔
      s.terminated = false ∧ b.respond s.attempts = none := by
  unfold catchClause.reply send
  cases b.respond s.attempts with
  | none =>
      rw [contained_returned_iff true rfl]
      simp
  | some e =>
      rw [contained_finished_iff (.error (.lsError e)) rfl]
      simp

/-- The failure of the bus leaves a catch clause that replies. -/
theorem catchClause_contained_iff (s : Exchange) (x : Exn) :
    (s.catchClause pf b x).Contained ↔
      s.terminated = false ∧ ((thrownReply pf x).isSome = true → b.respond s.attempts = none) := by
  cases x with
  | jsonParseError e => simp [catchClause, reply_contained_iff, thrownReply]
  | errorResponse e => simp [catchClause, reply_contained_iff, thrownReply]
  | lsError | stdException | unknown =>
      rw [contained_returned_iff false rfl]
      simp [catchClause, thrownReply]

/-- A reply never takes the mark back. -/
theorem respond_responded {s : Exchange} {r : JsonRequest} (hs : s.request = some r)
    (hr : r.mResponded = true) (sender : Sender) (response : JValue) :
    ∃ r', (s.respond b sender response).2.request = some r' ∧ r'.mResponded = true := by
  rcases respond_keeps b s sender response with ⟨_, _, _, _, hrequest, _⟩
  rcases hrequest with hsame | hset
  · exact ⟨r, hsame.trans hs, hr⟩
  · refine ⟨{ r with mResponded := true }, ?_, rfl⟩
    rw [hset, hs]
    rfl

/-- A request marked as responded goes in silence, or stays with the copies. -/
theorem leaveScope_keeps {s : Exchange} {r : JsonRequest} (hs : s.request = some r)
    (hr : r.mResponded = true) :
    let t := s.leaveScope pf b
    t.terminated = s.terminated ∧ t.attempts = s.attempts := by
  by_cases hc : s.copies = 0
  · rw [leaveScope_of_responded pf b hs hr hc]
    exact ⟨rfl, rfl⟩
  · simp [leaveScope, release, hc]

/-- After the handler has thrown. -/
theorem unwind_contained_iff {s : Exchange} {r : JsonRequest} (hs : s.request = some r)
    (hr : r.mResponded = true) (x : Exn) :
    (s.unwind pf b x).Contained ↔
      s.terminated = false ∧ ((thrownReply pf x).isSome = true → b.respond s.attempts = none) := by
  rcases leaveScope_keeps pf b hs hr with ⟨hterminated, hattempts⟩
  rw [unwind, catchClause_contained_iff, hterminated, hattempts]

/-- A deferred request without a copy of its function is destroyed unanswered. -/
theorem leaveScope_unanswered (s : Exchange) {r : JsonRequest} (hs : s.request = some r) :
    ((s.setResponded false).leaveScope pf b).terminated =
      (s.terminated || s.copies == 0 && (b.respond s.attempts).isSome) := by
  unfold leaveScope release
  cases hc : s.copies == 0 with
  | true =>
      rw [if_pos (by simpa [setResponded] using hc), (destroyRequest_keeps_phase pf b _).2]
      simp [setResponded, hs]
  | false =>
      rw [if_neg (by simpa [setResponded] using hc)]
      simp [setResponded]

/-- After the handler has returned: the reply of the result is inside the try block, and a
request that is deferred may be destroyed at once. -/
theorem settle_contained_iff {s : Exchange} {r : JsonRequest} (hs : s.request = some r)
    (hr : r.mResponded = true) (result : JValue) :
    (s.settle pf b result).Contained ↔
      s.terminated = false ∧ (r.mDeferred = true → s.copies = 0 → b.respond s.attempts = none) := by
  have hdeferred : (s.request.map JsonRequest.mDeferred).getD false = r.mDeferred := by
    rw [hs]
    rfl
  unfold settle
  rw [hdeferred]
  cases r.mDeferred with
  | true =>
      rw [if_pos rfl, contained_returned_iff true rfl]
      show ((s.setResponded false).leaveScope pf b).terminated = false ↔ _
      rw [leaveScope_unanswered pf b s hs]
      simp
  | false =>
      rw [if_neg Bool.false_ne_true]
      rcases respond_keeps b s .handlerResult result with ⟨_, _, _, hterminated, _, hthrown⟩
      rcases respond_responded b hs hr .handlerResult result with ⟨r', hr', hresponded'⟩
      rcases leaveScope_keeps pf b hr' hresponded' with ⟨hterminated', _⟩
      have halive := hterminated'.trans hterminated
      cases hrespond : s.respond b .handlerResult result with
      | mk outcome t =>
          rw [hrespond] at halive hthrown
          cases outcome with
          | ok u =>
              dsimp only
              rw [contained_returned_iff true rfl]
              show (t.leaveScope pf b).terminated = false ↔ _
              rw [halive]
              simp
          | error x =>
              dsimp only
              rcases hthrown x rfl with ⟨message, rfl⟩
              rw [catchClause_contained_iff, halive]
              simp [thrownReply]

/-! ## Contained runs -/

theorem held_enterHandler (params : JValue) : (enterHandler params).Held :=
  fun _ => ⟨rfl, ⟨params, false, true⟩, rfl, rfl⟩

theorem catchClause_held (s : Exchange) (x : Exn) : (s.catchClause pf b x).Held := by
  intro hin
  rcases catchClause_phase pf s x (b := b) with ⟨result, hresult⟩
  exact absurd hresult (hin result)

theorem held_start (payload : String) (schema : pf.JSchema) :
    (start pf b payload schema).Held := by
  unfold start
  cases validate pf payload schema with
  | error e => exact catchClause_held pf b arrived (.errorResponse e)
  | ok value => exact held_enterHandler value

/-- The scope keeps the request from its destructor whatever is done with the copies. -/
theorem Held.act {s : Exchange} (h : s.Held) (a : Action) : (s.act pf b a).Held := by
  intro hin
  rcases h (fun result hresult => hin result ((act_phase pf s a).trans hresult)) with
    ⟨hscope, r, hr, hresponded⟩
  refine ⟨(act_inside pf hscope a).2, ?_⟩
  cases a with
  | defer =>
      exact ⟨{ r with mDeferred := true }, by simp [Exchange.act, setDeferred, hr], hresponded⟩
  | copy => exact ⟨r, hr, hresponded⟩
  | invoke response => exact respond_responded b hr hresponded .deferredFunction response
  | drop =>
      rw [drop_inside pf hscope]
      exact ⟨r, hr, hresponded⟩

theorem Held.step {s t : Exchange} {e : Event} (h : s.Held)
    (hstep : Exchange.step pf b s e = some t) : t.Held := by
  rcases step_cases pf hstep with
    ⟨a, _, _, rfl⟩ | ⟨_, _, hphase, rfl⟩ | ⟨x, _, _, rfl⟩ | ⟨result, _, _, rfl⟩
  · exact h.act pf b a
  · exact fun _ => h (by simp [hphase])
  · exact catchClause_held pf b _ x
  · intro hin
    rcases settle_phase pf s result (b := b) with ⟨outcome, houtcome⟩
    exact absurd houtcome (hin outcome)

/-- Dropping a copy destroys the request if the scope is gone and no other copy is left. -/
theorem drop_contained_iff {s : Exchange} (hcopies : s.copies ≠ 0) :
    (s.act pf b .drop).Contained ↔ s.Contained ∧ ReplyTaken pf b s (.act .drop) := by
  show (release pf b { s with copies := s.copies - 1 }).Contained ↔ _
  have hlast : (s.copies - 1 == 0) = (s.copies == 1) := by
    rw [Bool.eq_iff_iff, beq_iff_eq, beq_iff_eq]
    omega
  unfold release ReplyTaken unguarded
  dsimp only
  rw [hlast]
  cases hdestroyed : !s.scope && s.copies == 1 with
  | true =>
      rcases destroyRequest_keeps_phase pf b { s with copies := s.copies - 1 } with
        ⟨hphase, hends⟩
      rw [if_pos rfl, contained_iff_of_phase (s := s) hphase hends]
      cases (s.request.map fun r => !r.mResponded).getD false <;>
        cases b.respond s.attempts <;> simp
  | false =>
      have hsame : Contained { s with copies := s.copies - 1 } ↔ s.Contained :=
        contained_congr rfl rfl
      rw [if_neg Bool.false_ne_true, hsame]
      simp

theorem act_contained_iff {s : Exchange} {a : Action} (ha : s.canAct a = true) :
    (s.act pf b a).Contained ↔ s.Contained ∧ ReplyTaken pf b s (.act a) := by
  have hkeeps (t : Exchange) (hphase : t.phase = s.phase) (hends : t.terminated = s.terminated)
      (hguarded : s.unguarded pf (.act a) = false) :
      t.Contained ↔ s.Contained ∧ ReplyTaken pf b s (.act a) := by
    rw [contained_congr hphase hends]
    simp [ReplyTaken, hguarded]
  cases a with
  | defer => exact hkeeps _ rfl rfl rfl
  | copy => exact hkeeps _ rfl rfl rfl
  | invoke response =>
      rcases respond_keeps b s .deferredFunction response with ⟨hphase, _, _, hends, _⟩
      exact hkeeps _ hphase hends rfl
  | drop => exact drop_contained_iff pf b (by simpa [canAct] using ha)

/-- What one step lets out is the failure of a reply that nothing guards. -/
theorem step_contained_iff {s t : Exchange} {e : Event} (h : s.Held)
    (hstep : Exchange.step pf b s e = some t) :
    t.Contained ↔ s.Contained ∧ ReplyTaken pf b s e := by
  rcases step_cases pf hstep with
    ⟨a, rfl, ha, rfl⟩ | ⟨result, rfl, hphase, rfl⟩ | ⟨x, rfl, hphase, rfl⟩ |
      ⟨result, rfl, hphase, rfl⟩
  · exact act_contained_iff pf b ha
  all_goals
    have hin (outcome : Except Exn Bool) : s.phase ≠ .finished outcome := by simp [hphase]
    rcases h hin with ⟨_, r, hr, hresponded⟩
    rw [contained_iff_alive hin]
  · rw [contained_iff_alive (by simp)]
    simp [ReplyTaken, unguarded]
  · exact unwind_contained_iff pf b hr hresponded x
  · rw [settle_contained_iff pf b hr hresponded]
    simp [ReplyTaken, unguarded, hr]

theorem run_contained_iff {s t : Exchange} {events : List Event} (h : s.Held)
    (hrun : run (Exchange.step pf b) s events = some t) :
    t.Contained ↔ s.Contained ∧ Meets (Exchange.step pf b) (ReplyTaken pf b) s events := by
  induction events generalizing s with
  | nil =>
      obtain rfl := Option.some.inj hrun
      simp [meets_nil]
  | cons e events ih =>
      rcases run_cons_iff.mp hrun with ⟨m, hm, ht⟩
      rw [ih (h.step pf b hm) ht, step_contained_iff pf b h hm, meets_cons_iff, and_assoc]
      simp [hm]

theorem start_contained_iff (payload : String) (schema : pf.JSchema) :
    (start pf b payload schema).Contained ↔
      ((∃ value, validate pf payload schema = .ok value) ∨ b.respond 0 = none) := by
  unfold start
  cases validate pf payload schema with
  | error e =>
      dsimp only
      rw [catchClause_contained_iff]
      simp [thrownReply, arrived]
  | ok value =>
      have hin (outcome : Except Exn Bool) : (enterHandler value).phase ≠ .finished outcome := by
        simp [enterHandler, arrived]
      dsimp only
      rw [contained_iff_alive hin]
      simp [enterHandler, arrived]

/-- A call always ends, with a result or an exception. -/
theorem handleLunaCall_finished (payload : String) (schema : pf.JSchema) (handler : Handler) :
    ∃ result, (handleLunaCall pf b payload schema handler).phase = .finished result := by
  unfold handleLunaCall
  cases validate pf payload schema with
  | error e => exact catchClause_phase pf arrived (.errorResponse e)
  | ok value =>
      dsimp only
      cases (handler value).outcome with
      | returns result => exact settle_phase pf _ result
      | throws x => exact catchClause_phase pf _ x

/-- Over every run of a call: nothing escapes exactly when the payload validates or the bus
takes its error reply, and the bus takes every later reply that nothing guards. -/
theorem contained_iff (pf : Platform) (b : Bus) (payload : String) (schema : pf.JSchema)
    (events : List Event) (s : Exchange)
    (h : run (Exchange.step pf b) (start pf b payload schema) events = some s) :
    s.Contained ↔
      ((∃ value, validate pf payload schema = .ok value) ∨ b.respond 0 = none) ∧
        Meets (Exchange.step pf b) (ReplyTaken pf b) (start pf b payload schema) events := by
  rw [run_contained_iff pf b (held_start pf b payload schema) h, start_contained_iff]

/-- A bus that takes the first reply and no other, for a call answered and let go. -/
theorem contained_answered :
    let bus : Bus := ⟨fun n => if n = 0 then none else some "not connected"⟩
    let events : List Event := [.act .defer, .handlerReturns (.valid .null), .settle,
      .act (.invoke (.valid (.object []))), .act .drop]
    ∃ s, run (Exchange.step .ofEmptyObject bus) (start .ofEmptyObject bus "\x7b\x7d" ())
        events = some s ∧
      (s.Contained ↔
        ((∃ value, validate .ofEmptyObject "\x7b\x7d" () = .ok value) ∨ bus.respond 0 = none) ∧
          Meets (Exchange.step .ofEmptyObject bus) (ReplyTaken .ofEmptyObject bus)
            (start .ofEmptyObject bus "\x7b\x7d" ()) events) :=
  ⟨_, rfl, contained_iff .ofEmptyObject _ "\x7b\x7d" () _ _ rfl⟩

/-- On a bus that takes no reply the error reply to a malformed payload leaves
`handleLunaCall`, and dropping the last copy of a deferred function ends the program. -/
theorem reply_escapes :
    let bus : Bus := ⟨fun _ => some "not connected"⟩
    (start .ofEmptyObject bus "" ()).phase = .finished (.error (.lsError "not connected")) ∧
      ∃ s, run (Exchange.step .ofEmptyObject bus) (start .ofEmptyObject bus "\x7b\x7d" ())
          [.act .defer, .handlerReturns (.valid .null), .settle, .act .drop] = some s ∧
        s.phase = .finished (.ok true) ∧ s.terminated = true :=
  ⟨rfl, _, rfl, rfl, rfl⟩

end Exchange

end LSHelpers
