import LSHelpers.Request.Containment

/-!
# Replies that are owed

Replies are only added. On a bus that takes every reply, a call that `handleLunaCall` has
reported as handled is answered, or its request still waits for its deferred function and
its destructor will answer.
-/

namespace LSHelpers

namespace Exchange

open Transition

variable (pf : Platform) (b : Bus)

/-! ## Replies are only added -/

theorem send_grows (s : Exchange) (sender : Sender) (payload : Json) :
    s.replies <+: (s.send b sender payload).2.replies := by
  unfold send
  cases b.respond s.attempts with
  | none => exact List.prefix_append _ _
  | some e => exact List.prefix_rfl

theorem respond_grows (s : Exchange) (sender : Sender) (response : JValue) :
    s.replies <+: (s.respond b sender response).2.replies := by
  unfold respond
  cases responseObject response with
  | none => exact List.prefix_rfl
  | some payload =>
      have hsent := send_grows b s sender payload
      dsimp only
      cases hsend : s.send b sender payload with
      | mk outcome t =>
          rw [hsend] at hsent
          cases outcome <;> exact hsent

theorem destroyRequest_grows (s : Exchange) :
    s.replies <+: (s.destroyRequest pf b).replies := by
  unfold destroyRequest
  cases s.request with
  | none => exact List.prefix_rfl
  | some r =>
      cases hresponded : r.mResponded with
      | true => simp [hresponded]
      | false =>
          have hsent := respond_grows b s .destructor (.valid (apiErrorNoResponse pf))
          simp only [hresponded, Bool.not_false, if_true]
          cases hrespond : s.respond b .destructor (.valid (apiErrorNoResponse pf)) with
          | mk outcome t =>
              rw [hrespond] at hsent
              cases outcome <;> exact hsent

theorem release_grows (s : Exchange) : s.replies <+: (s.release pf b).replies := by
  unfold release
  split
  · exact destroyRequest_grows pf b s
  · exact List.prefix_rfl

theorem catchClause_grows (s : Exchange) (x : Exn) :
    s.replies <+: (s.catchClause pf b x).replies := by
  have hreply (payload : Json) : s.replies <+: (catchClause.reply b s payload).replies := by
    have hsent := send_grows b s .errorReply payload
    unfold catchClause.reply
    cases hsend : s.send b .errorReply payload with
    | mk outcome t =>
        rw [hsend] at hsent
        cases outcome <;> exact hsent
  cases x with
  | jsonParseError e => exact hreply _
  | errorResponse e => exact hreply e
  | lsError | stdException | unknown => exact List.prefix_rfl

theorem settle_grows (s : Exchange) (result : JValue) :
    s.replies <+: (s.settle pf b result).replies := by
  unfold settle
  split
  · exact release_grows pf b { s.setResponded false with scope := false }
  · have hsent := respond_grows b s .handlerResult result
    cases hrespond : s.respond b .handlerResult result with
    | mk outcome t =>
        rw [hrespond] at hsent
        have hleft := hsent.trans (release_grows pf b { t with scope := false })
        cases outcome with
        | ok u => exact hleft
        | error e => exact hleft.trans (catchClause_grows pf b _ e)

theorem act_grows (s : Exchange) (a : Action) : s.replies <+: (s.act pf b a).replies := by
  cases a with
  | defer | copy => exact List.prefix_rfl
  | invoke response => exact respond_grows b s .deferredFunction response
  | drop => exact release_grows pf b { s with copies := s.copies - 1 }

theorem step_grows {s t : Exchange} {e : Event} (hstep : step pf b s e = some t) :
    s.replies <+: t.replies := by
  rcases step_cases pf hstep with
    ⟨a, _, _, rfl⟩ | ⟨_, _, _, rfl⟩ | ⟨x, _, _, rfl⟩ | ⟨result, _, _, rfl⟩
  · exact act_grows pf b s a
  · exact List.prefix_rfl
  · exact (release_grows pf b { s with scope := false }).trans (catchClause_grows pf b _ x)
  · exact settle_grows pf b s result

/-! ## Who answers -/

/-- A call reported as handled is answered, or its request is not and will be. -/
def Accounted (s : Exchange) : Prop :=
  s.phase = .finished (.ok true) →
    s.replies ≠ [] ∨ ∃ r, s.request = some r ∧ r.mResponded = false

theorem ne_nil_of_grows {α : Type*} {l l' : List α} (h : l <+: l') (hl : l ≠ []) : l' ≠ [] := by
  intro hnil
  exact hl (List.prefix_nil.mp (hnil ▸ h))

section Reliable

variable {b} (hb : b.Reliable)
include hb

theorem accounted_catchClause (s : Exchange) (x : Exn) : (s.catchClause pf b x).Accounted := by
  rw [catchClause_reliable pf hb]
  intro hphase
  have hanswered : (thrownReply pf x).isSome = true := by simpa using hphase
  rcases Option.isSome_iff_exists.mp hanswered with ⟨payload, hpayload⟩
  exact .inl (by simp [hpayload])

/-- A request that is let go is answered first. -/
theorem Accounted.release {s : Exchange} (h : s.Accounted) : (s.release pf b).Accounted := by
  intro hphase
  rw [release_phase] at hphase
  unfold Exchange.release
  split
  · rcases h hphase with hanswered | ⟨r, hr, hresponded⟩
    · exact .inl (ne_nil_of_grows (destroyRequest_grows pf b s) hanswered)
    · rcases destroyRequest_reliable pf hb hr with ⟨_, _, _, _, _, hreplies⟩
      exact .inl (by simp [hreplies, hresponded])
  · exact h hphase

theorem Accounted.act {s : Exchange} (h : s.Accounted) (a : Action) :
    (s.act pf b a).Accounted := by
  cases a with
  | defer =>
      intro hphase
      refine (h hphase).imp_right ?_
      intro hopen
      rcases hopen with ⟨r, hr, hresponded⟩
      exact ⟨{ r with mDeferred := true }, by simp [Exchange.act, setDeferred, hr], hresponded⟩
  | copy => exact h
  | invoke response =>
      rcases invoke_reliable pf hb s response with ⟨_, _, hphase, _, hrequest, hreplies⟩
      intro hfinished
      rw [hrequest, hreplies]
      cases responseObject response with
      | none => simpa using h (hphase.symm.trans hfinished)
      | some payload => exact .inl (by simp)
  | drop => exact Accounted.release pf hb (s := { s with copies := s.copies - 1 }) h

theorem accounted_settle {s : Exchange} {r : JsonRequest} (hr : s.request = some r)
    (result : JValue) : (s.settle pf b result).Accounted := by
  unfold settle
  split
  · -- deferred: the flag is lowered, and the destructor answers if nobody does
    have hlowered : Accounted { s.setResponded false with
        scope := false, phase := .finished (.ok true) } :=
      fun _ => .inr ⟨{ r with mResponded := false }, by simp [setResponded, hr], rfl⟩
    have hleave := release_withPhase pf (b := b) { s.setResponded false with scope := false }
      (.finished (.ok true))
    exact (congrArg Accounted hleave).mpr (Accounted.release pf hb hlowered)
  · rw [respond_reliable hb]
    cases responseObject result with
    | none => exact accounted_catchClause pf hb _ _
    | some payload =>
        intro _
        exact .inl (ne_nil_of_grows (release_grows pf b _) (by simp [setResponded]))

theorem Accounted.step {s t : Exchange} {e : Event} (h : s.Accounted) (hheld : s.Held)
    (hstep : Exchange.step pf b s e = some t) : t.Accounted := by
  rcases step_cases pf hstep with
    ⟨a, _, _, rfl⟩ | ⟨_, _, _, rfl⟩ | ⟨x, _, _, rfl⟩ | ⟨result, _, hphase, rfl⟩
  · exact h.act pf hb a
  · intro hfinished
    cases hfinished
  · exact accounted_catchClause pf hb _ x
  · rcases hheld (by simp [hphase]) with ⟨_, r, hr, _⟩
    exact accounted_settle pf hb hr result

theorem accounted_start (payload : String) (schema : pf.JSchema) :
    (start pf b payload schema).Accounted := by
  unfold start
  cases validate pf payload schema with
  | error e => exact accounted_catchClause pf hb arrived (.errorResponse e)
  | ok value =>
      intro hphase
      cases hphase

end Reliable

end Exchange

/-! ## Calls that are not deferred -/

/-- The reply of a call that is not deferred, by `handleLunaCall_answer`. -/
def Outcome.answer (pf : Platform) : Outcome → Option Json
  | .returns result => responseObject result
  | .throws e => Exchange.thrownReply pf e

/-- It is what `handleLunaCall` replies. -/
theorem handleLunaCall_answer {pf : Platform} {b : Bus} (hb : b.Reliable) {payload : String}
    {schema : pf.JSchema} {handler : Handler} {value : JValue}
    (hvalid : validate pf payload schema = .ok value)
    (hdefer : .defer ∉ (handler value).actions) :
    (handleLunaCall pf b payload schema handler).replies.map Reply.payload =
      ((handler value).outcome.answer pf).toList := by
  unfold handleLunaCall
  rw [hvalid]
  dsimp only
  rw [Exchange.foldl_perform_of_no_copies pf b rfl hdefer]
  cases (handler value).outcome with
  | returns result =>
      dsimp only
      rw [Exchange.settle_enterHandler pf hb]
      cases h : responseObject result <;> simp [Outcome.answer, h]
  | throws e =>
      dsimp only
      rw [Exchange.unwind_enterHandler pf hb]
      cases h : Exchange.thrownReply pf e <;> simp [Outcome.answer, h]

namespace Exchange

open Transition

variable (pf : Platform) {b : Bus}

/-- How the handler ends, as an event. -/
def Event.ofOutcome : Outcome → Event
  | .returns result => .handlerReturns result
  | .throws e => .handlerThrows e

/-- Before its flags are settled a call that is not deferred has no reply and no copies. -/
theorem Inside.quiet {es : List Event} {s : Exchange} (h : Inside es s)
    (hdefer : .act .defer ∉ es) : s.replies = [] ∧ s.copies = 0 := by
  constructor
  · by_cases ha : answers es = []
    · simpa [ha] using h.replies
    · exact absurd (h.answered ha) hdefer
  · by_contra hc
    exact hdefer (h.copies hc)

/-- Where a call that is not deferred stands after its handler has ended. -/
def Ended (pf : Platform) (outcome : Outcome) (s : Exchange) : Prop :=
  (∃ result, outcome = .returns result ∧ s.phase = .returned result) ∨
    (∃ r, s.phase = .finished r) ∧ s.copies = 0 ∧
      s.replies.map Reply.payload = (outcome.answer pf).toList

section Undeferred

variable (hb : b.Reliable) {es : List Event} {s t : Exchange} {e : Event} {outcome : Outcome}
include hb

/-- The handler ends. -/
theorem Inside.ends (h : Inside es s) (hdefer : .act .defer ∉ es)
    (hstep : Exchange.step pf b s (.ofOutcome outcome) = some t) : t.Ended pf outcome := by
  cases outcome with
  | returns result =>
      rcases step_cases pf hstep with
        ⟨_, hact, _⟩ | ⟨v, hv, _, rfl⟩ | ⟨_, hthrow, _⟩ | ⟨_, hsettle, _⟩
      · cases hact
      · cases hv
        exact .inl ⟨result, rfl, rfl⟩
      · cases hthrow
      · cases hsettle
  | throws x =>
      rcases step_cases pf hstep with
        ⟨_, hact, _⟩ | ⟨_, hreturn, _⟩ | ⟨y, hy, _, rfl⟩ | ⟨_, hsettle, _⟩
      · cases hact
      · cases hreturn
      · cases hy
        rcases h.request with ⟨r, hr, hresponded, _⟩
        rcases h.quiet hdefer with ⟨hreplies, hcopies⟩
        right
        rw [unwind, leaveScope_of_responded pf b hr hresponded hcopies, catchClause_reliable pf hb]
        refine ⟨⟨_, rfl⟩, hcopies, ?_⟩
        cases hthrown : thrownReply pf x <;> simp [hreplies, hthrown, Outcome.answer]
      · cases hsettle

/-- After that only the settling of the flags is left. -/
theorem Ended.step (h : s.Ended pf outcome)
    (hin : (∀ r, s.phase ≠ .finished r) → Inside es s) (hdefer : .act .defer ∉ es)
    (hstep : Exchange.step pf b s e = some t) : t.Ended pf outcome := by
  rcases h with ⟨result, rfl, hphase⟩ | ⟨⟨r, hfinished⟩, hcopies, _⟩
  · rcases step_cases pf hstep with
      ⟨a, rfl, _, rfl⟩ | ⟨_, _, hrun, _⟩ | ⟨_, _, hrun, _⟩ | ⟨v, rfl, hv, rfl⟩
    · exact .inl ⟨result, rfl, (act_phase pf s a).trans hphase⟩
    · rw [hphase] at hrun
      cases hrun
    · rw [hphase] at hrun
      cases hrun
    · obtain rfl : result = v := Phase.returned.inj (hphase.symm.trans hv)
      have hinside := hin (by simp [hphase])
      rcases hinside.settle_undeferred pf hb hdefer result with ⟨hfinished, hcopies, hreplies⟩
      exact .inr ⟨⟨_, hfinished⟩, hcopies, by simp [hreplies, Outcome.answer, Function.comp_def]⟩
  · have hrun : run (Exchange.step pf b) s [e] = some t := run_cons_iff.mpr ⟨t, hstep, rfl⟩
    rcases run_of_no_copies pf hfinished hcopies hrun with ⟨hnil, _⟩
    cases hnil

/-- A call that is not deferred has the answer of its handler's outcome as its only reply,
or still has none. -/
theorem undeferred_of_run {params : JValue}
    (h : run (Exchange.step pf b) (enterHandler params) es = some s)
    (houtcome : Event.ofOutcome outcome ∈ es) (hdefer : .act .defer ∉ es) :
    s.replies = [] ∨ s.replies.map Reply.payload = (outcome.answer pf).toList := by
  have hended : s.Ended pf outcome := by
    refine run_history (P := fun es s => .act .defer ∉ es → Event.ofOutcome outcome ∈ es →
      s.Ended pf outcome) (by simp) ?_ h hdefer houtcome
    intro es e m n hm hprev hn hdefer hmem
    have hbefore : .act .defer ∉ es := fun hin => hdefer (List.mem_append_left _ hin)
    by_cases hes : Event.ofOutcome outcome ∈ es
    · exact (hprev hbefore hes).step pf hb (inside_of_run pf hb hm) hbefore hn
    · obtain rfl : Event.ofOutcome outcome = e := by simpa [hes] using hmem
      refine (inside_of_run pf hb hm ?_).ends pf hb hbefore hn
      intro r hr
      rcases finished_step pf hr hn with ⟨a, ha, _⟩
      cases outcome <;> cases ha
  rcases hended with ⟨result, rfl, hphase⟩ | ⟨_, _, hreplies⟩
  · exact .inl ((inside_of_run pf hb h (by simp [hphase])).quiet hdefer).1
  · exact .inr hreplies

end Undeferred

end Exchange

end LSHelpers
