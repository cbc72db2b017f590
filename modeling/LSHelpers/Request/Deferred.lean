import LSHelpers.Request.HandleLunaCall
import LSHelpers.Transition.Run

/-!
# Runs of a deferred call

The flags of a request are settled once, when its handler has returned. A run is
therefore cut there: before the cut the request is alive and marked as responded
whatever is sent, after it the flag records what is sent. A call whose handler is a script is
one of the runs (`handleLunaCall_run`).
-/

namespace LSHelpers

namespace Exchange

open Transition

variable (pf : Platform) {b : Bus}

/-- The replies the deferred function sends in a list of events. -/
def answers (events : List Event) : List Json :=
  events.filterMap fun
    | .act (.invoke response) => responseObject response
    | _ => none

/-- The stock reply of the destructor. -/
def stockReply : Reply := ⟨.destructor, apiErrorNoResponse pf⟩

theorem answers_concat_invoke (es : List Event) (response : JValue) :
    answers (es ++ [.act (.invoke response)]) = answers es ++ (responseObject response).toList := by
  cases h : responseObject response <;> simp [answers, h]

/-! ## One step -/

/-- What can happen besides actions, and only while `handleLunaCall` is inside. -/
theorem step_cases {s t : Exchange} {e : Event} (h : step pf b s e = some t) :
    (∃ a, e = .act a ∧ s.canAct a = true ∧ t = s.act pf b a) ∨
    (∃ result, e = .handlerReturns result ∧ s.phase = .running ∧
      t = { s with phase := .returned result }) ∨
    (∃ x, e = .handlerThrows x ∧ s.phase = .running ∧ t = s.unwind pf b x) ∨
    (∃ result, e = .settle ∧ s.phase = .returned result ∧ t = s.settle pf b result) := by
  unfold step at h
  split at h
  · cases h
  · split at h
    · rename_i _ a hphase
      split at h
      · exact .inl ⟨_, rfl, by assumption, by simpa using h.symm⟩
      · cases h
    · exact .inr (.inl ⟨_, rfl, by assumption, by simpa using h.symm⟩)
    · exact .inr (.inr (.inl ⟨_, rfl, by assumption, by simpa using h.symm⟩))
    · exact .inr (.inr (.inr ⟨_, rfl, by assumption, by simpa using h.symm⟩))
    · cases h

theorem catchClause_phase (s : Exchange) (x : Exn) :
    ∃ r, (s.catchClause pf b x).phase = .finished r := by
  cases x <;> unfold catchClause catchClause.reply <;> dsimp only
  case jsonParseError | errorResponse => split <;> exact ⟨_, rfl⟩
  all_goals exact ⟨_, rfl⟩

theorem settle_phase (s : Exchange) (result : JValue) :
    ∃ r, (s.settle pf b result).phase = .finished r := by
  unfold settle
  split
  · exact ⟨_, rfl⟩
  · split
    · exact ⟨_, rfl⟩
    · exact catchClause_phase pf _ _

/-! ## The parts of a step on any bus -/

/-- Only the attempt and the flag change, and what is thrown is an `LS::Error`. -/
theorem respond_keeps (b : Bus) (s : Exchange) (sender : Sender) (response : JValue) :
    let t := (s.respond b sender response).2
    t.phase = s.phase ∧ t.scope = s.scope ∧ t.copies = s.copies ∧ t.terminated = s.terminated ∧
      (t.request = s.request ∨ t.request = s.request.map fun r => { r with mResponded := true }) ∧
      ∀ x, (s.respond b sender response).1 = .error x → ∃ message, x = .lsError message := by
  unfold respond send
  cases responseObject response with
  | none =>
      refine ⟨rfl, rfl, rfl, rfl, .inl rfl, ?_⟩
      intro x hx
      cases hx
      exact ⟨_, rfl⟩
  | some payload =>
      cases b.respond s.attempts with
      | none => exact ⟨rfl, rfl, rfl, rfl, .inr rfl, fun x hx => by cases hx⟩
      | some e =>
          refine ⟨rfl, rfl, rfl, rfl, .inl rfl, ?_⟩
          intro x hx
          cases hx
          exact ⟨_, rfl⟩

/-- The program ends in a destructor whose stock reply the bus does not take. -/
theorem destroyRequest_keeps_phase (b : Bus) (s : Exchange) :
    (s.destroyRequest pf b).phase = s.phase ∧
      (s.destroyRequest pf b).terminated =
        (s.terminated ||
          (s.request.map fun r => !r.mResponded).getD false && (b.respond s.attempts).isSome) := by
  unfold destroyRequest
  cases hrequest : s.request with
  | none => simp
  | some r =>
      cases hresponded : r.mResponded with
      | true => simp [hresponded]
      | false =>
          have hstock : responseObject (.valid (apiErrorNoResponse pf)) =
              some (apiErrorNoResponse pf) := rfl
          cases hbus : b.respond s.attempts with
          | none => simp [hresponded, respond, send, hstock, hbus, setResponded]
          | some e => simp [hresponded, respond, send, hstock, hbus]

/-- It makes no difference whether the request goes before `handleLunaCall` is out or after. -/
theorem release_withPhase (s : Exchange) (p : Phase) :
    { s.release pf b with phase := p } = release pf b { s with phase := p } := by
  unfold release
  split
  · rcases s with ⟨_ | r, scope, copies, phase, attempts⟩
    · rfl
    · cases h : r.mResponded with
      | true => simp [destroyRequest, h]
      | false =>
          cases hbus : b.respond attempts <;>
            simp [destroyRequest, h, respond, send, hbus, responseObject, apiErrorNoResponse,
              errorResponse, setResponded]
  · rfl

theorem respond_withPhase (s : Exchange) (p : Phase) (sender : Sender) (response : JValue) :
    respond b { s with phase := p } sender response =
      ((s.respond b sender response).1, { (s.respond b sender response).2 with phase := p }) := by
  unfold respond send
  cases responseObject response with
  | none => rfl
  | some payload => cases b.respond s.attempts <;> rfl

theorem catchClause_withPhase (s : Exchange) (p : Phase) (x : Exn) :
    catchClause pf b { s with phase := p } x = s.catchClause pf b x := by
  cases x with
  | jsonParseError | errorResponse =>
      simp only [catchClause, catchClause.reply, send]
      cases b.respond s.attempts <;> rfl
  | lsError | stdException | unknown => rfl

/-- Where `handleLunaCall` stands does not matter to the settling, which ends it. -/
theorem settle_withPhase (s : Exchange) (p : Phase) (result : JValue) :
    settle pf b { s with phase := p } result = s.settle pf b result := by
  have hleave (t : Exchange) : leaveScope pf b { t with phase := p } =
      { t.leaveScope pf b with phase := p } :=
    (release_withPhase pf { t with scope := false } p).symm
  unfold settle
  rw [respond_withPhase]
  split
  · show { leaveScope pf b { s.setResponded false with phase := p } with
      phase := .finished (.ok true) } = _
    rw [hleave]
  · rcases s.respond b .handlerResult result with ⟨e | u, t⟩
    · simp only [hleave, catchClause_withPhase]
    · simp only [hleave]

theorem release_phase (s : Exchange) : (s.release pf b).phase = s.phase := by
  unfold release
  split
  · exact (destroyRequest_keeps_phase pf b s).1
  · rfl

theorem act_phase (s : Exchange) (a : Action) : (s.act pf b a).phase = s.phase := by
  cases a with
  | defer | copy => rfl
  | invoke response => exact (respond_keeps b s .deferredFunction response).1
  | drop => exact release_phase pf { s with copies := s.copies - 1 }

theorem drop_inside {s : Exchange} (hs : s.scope = true) :
    s.act pf b .drop = { s with copies := s.copies - 1 } := by
  simp [act, release, hs]

/-- While the scope holds the request no action lets go of it, or ends the program. -/
theorem act_inside {s : Exchange} (hs : s.scope = true) (a : Action) :
    (s.act pf b a).terminated = s.terminated ∧ (s.act pf b a).scope = true := by
  cases a with
  | defer | copy => exact ⟨rfl, hs⟩
  | invoke response =>
      rcases respond_keeps b s .deferredFunction response with ⟨_, hscope, _, hends, _⟩
      exact ⟨hends, hscope.trans hs⟩
  | drop =>
      rw [drop_inside pf hs]
      exact ⟨rfl, hs⟩

section Reliable

variable (hb : b.Reliable)
include hb

/-- The destructor adds the stock reply exactly when the flag is down. -/
theorem destroyRequest_reliable {s : Exchange} {r : JsonRequest} (hs : s.request = some r) :
    let t := s.destroyRequest pf b
    t.request = none ∧ t.scope = s.scope ∧ t.copies = s.copies ∧ t.phase = s.phase ∧
      t.terminated = s.terminated ∧
      t.replies = s.replies ++ (if r.mResponded then [] else [stockReply pf]) := by
  unfold destroyRequest
  rw [hs]
  cases hr : r.mResponded
  · simp [hr, respond_reliable hb, responseObject, apiErrorNoResponse, errorResponse, setResponded,
      stockReply]
  · simp [hr]

/-- Invoking a copy adds the reply it is given, if that is one, and raises the flag. -/
theorem invoke_reliable (s : Exchange) (response : JValue) :
    let t := s.act pf b (.invoke response)
    t.scope = s.scope ∧ t.copies = s.copies ∧ t.phase = s.phase ∧ t.terminated = s.terminated ∧
      t.request = (match responseObject response with
        | none => s.request
        | some _ => s.request.map fun r => { r with mResponded := true }) ∧
      t.replies = s.replies ++
        (responseObject response).toList.map (Reply.mk .deferredFunction) := by
  simp only [act, respond_reliable hb]
  cases responseObject response <;> simp [setResponded]

/-! ## Before the flags are settled -/

end Reliable

/-- The exchange while `handleLunaCall` has not settled the flags, with the events
behind it. -/
structure Inside (es : List Event) (s : Exchange) : Prop where
  scope : s.scope = true
  alive : s.terminated = false
  request : ∃ r, s.request = some r ∧ r.mResponded = true ∧
    (r.mDeferred = true ↔ .act .defer ∈ es)
  replies : s.replies = (answers es).map (Reply.mk .deferredFunction)
  copies : s.copies ≠ 0 → .act .defer ∈ es
  answered : answers es ≠ [] → .act .defer ∈ es
  running : s.phase = .running → ∀ v, .handlerReturns v ∉ es
  returned : ∀ v, s.phase = .returned v → ∀ w, .handlerReturns w ∈ es → w = v

theorem inside_enterHandler (params : JValue) : Inside [] (enterHandler params) where
  scope := rfl
  alive := rfl
  request := ⟨⟨params, false, true⟩, rfl, rfl, by simp⟩
  replies := rfl
  copies := by simp [enterHandler, arrived]
  answered := by simp [answers]
  running := by simp
  returned := by simp

/-- An action keeps the exchange inside, with what it does to the request and the replies. -/
theorem Inside.of_act {es : List Event} {s t : Exchange} {a : Action} (h : Inside es s)
    (hscope : t.scope = s.scope) (halive : t.terminated = s.terminated) (hphase : t.phase = s.phase)
    (hdefer : .act .defer ∈ es ++ [.act a])
    (hrequest : ∃ r, t.request = some r ∧ r.mResponded = true ∧ r.mDeferred = true)
    (hreplies : t.replies = (answers (es ++ [.act a])).map (Reply.mk .deferredFunction)) :
    Inside (es ++ [.act a]) t where
  scope := hscope.trans h.scope
  alive := halive.trans h.alive
  request := by
    rcases hrequest with ⟨r, hr, hresponded, hdeferred⟩
    exact ⟨r, hr, hresponded, iff_of_true hdeferred hdefer⟩
  replies := hreplies
  copies := fun _ => hdefer
  answered := fun _ => hdefer
  running := by simpa [hphase] using h.running
  returned := by simpa [hphase] using h.returned

/-- An action before the flags are settled. -/
theorem Inside.act (hb : b.Reliable) {es : List Event} {s : Exchange} {a : Action}
    (h : Inside es s) (ha : s.canAct a = true) : Inside (es ++ [.act a]) (s.act pf b a) := by
  rcases h.request with ⟨r, hr, hresponded, hdeferred⟩
  have hbefore (hc : s.copies ≠ 0) : .act .defer ∈ es ++ [.act a] :=
    List.mem_append_left _ (h.copies hc)
  cases a with
  | defer =>
      refine h.of_act rfl rfl rfl ?_ ?_ ?_
      · simp
      · exact ⟨{ r with mDeferred := true }, by simp [Exchange.act, setDeferred, hr], hresponded,
          rfl⟩
      · simpa [Exchange.act, setDeferred, answers] using h.replies
  | copy =>
      have hc : s.copies ≠ 0 := by simpa [canAct] using ha
      refine h.of_act rfl rfl rfl ?_ ?_ ?_
      · exact hbefore hc
      · exact ⟨r, hr, hresponded, hdeferred.mpr (h.copies hc)⟩
      · simpa [Exchange.act, answers] using h.replies
  | invoke response =>
      have hc : s.copies ≠ 0 := by simpa [canAct] using ha
      rcases invoke_reliable pf hb s response with ⟨hscope, _, hphase, halive, hrequest, hreplies⟩
      refine h.of_act hscope halive hphase ?_ ?_ ?_
      · exact hbefore hc
      · refine ⟨r, ?_, hresponded, hdeferred.mpr (h.copies hc)⟩
        rw [hrequest, hr]
        cases responseObject response with
        | none => rfl
        | some _ => simp [← hresponded]
      · rw [hreplies, answers_concat_invoke, List.map_append, h.replies]
  | drop =>
      have hc : s.copies ≠ 0 := by simpa [canAct] using ha
      rw [drop_inside pf h.scope]
      refine h.of_act rfl rfl rfl ?_ ?_ ?_
      · exact hbefore hc
      · exact ⟨r, hr, hresponded, hdeferred.mpr (h.copies hc)⟩
      · simpa [answers] using h.replies

theorem Inside.step (hb : b.Reliable) {es : List Event} {s t : Exchange} {e : Event}
    (h : Inside es s) (hstep : Exchange.step pf b s e = some t)
    (hin : ∀ r, t.phase ≠ .finished r) : Inside (es ++ [e]) t := by
  rcases step_cases pf hstep with
    ⟨a, rfl, ha, rfl⟩ | ⟨result, rfl, hphase, rfl⟩ | ⟨x, rfl, _, rfl⟩ | ⟨result, rfl, _, rfl⟩
  · exact h.act pf hb ha
  · rcases h.request with ⟨r, hr, hresponded, hdeferred⟩
    refine ⟨h.scope, h.alive, ⟨r, hr, hresponded, by simpa using hdeferred⟩, ?_, ?_, ?_, ?_, ?_⟩
    · simpa [answers] using h.replies
    · simpa using h.copies
    · simpa [answers] using h.answered
    · simp
    · intro v hv w hw
      obtain rfl : result = v := Phase.returned.inj hv
      simpa [h.running hphase] using hw
  · obtain ⟨r, hr⟩ := catchClause_phase pf (b := b) (s.leaveScope pf b) x
    exact absurd hr (hin r)
  · obtain ⟨r, hr⟩ := settle_phase pf (b := b) s result
    exact absurd hr (hin r)

/-- `handleLunaCall` does not come back inside. -/
theorem finished_step {s t : Exchange} {e : Event} {r : Except Exn Bool}
    (hs : s.phase = .finished r) (hstep : Exchange.step pf b s e = some t) :
    ∃ a, e = .act a ∧ s.canAct a = true ∧ t = s.act pf b a := by
  rcases step_cases pf hstep with
    h | ⟨_, rfl, hphase, rfl⟩ | ⟨_, rfl, hphase, rfl⟩ | ⟨_, rfl, hphase, rfl⟩
  · exact h
  all_goals exact absurd (hs.symm.trans hphase) (by simp)

theorem inside_of_run (hb : b.Reliable) {params : JValue} {es : List Event} {s : Exchange}
    (h : run (Exchange.step pf b) (enterHandler params) es = some s)
    (hin : ∀ r, s.phase ≠ .finished r) : Inside es s := by
  refine run_history (P := fun es s => (∀ r, s.phase ≠ .finished r) → Inside es s)
    (fun _ => inside_enterHandler params) ?_ h hin
  intro es e m n _ hm hn hin
  refine (hm ?_).step pf hb hn hin
  intro r hr
  rcases finished_step pf hr hn with ⟨a, rfl, _, rfl⟩
  exact hin r ((act_phase pf m a).trans hr)

/-! ## After the flags are settled -/

/-- The exchange of a deferred call once `handleLunaCall` is out, with the replies
sent before and the events since: the request waits for its copies, or it is gone
and has added the stock reply if nothing was sent since. -/
structure Outside (base : List Reply) (es : List Event) (s : Exchange) : Prop where
  finished : ∃ r, s.phase = .finished r
  scope : s.scope = false
  request :
    (∃ r, s.request = some r ∧ s.copies ≠ 0 ∧ (r.mResponded = true ↔ answers es ≠ []) ∧
      s.replies = base ++ (answers es).map (Reply.mk .deferredFunction)) ∨
    (s.request = none ∧ s.copies = 0 ∧
      s.replies = base ++ (answers es).map (Reply.mk .deferredFunction) ++
        if answers es = [] then [stockReply pf] else [])

/-- Letting go of a copy, or of the scope, once nothing else can happen inside. -/
theorem Outside.of_release (hb : b.Reliable) {base : List Reply} {es : List Event} {s : Exchange}
    {r : JsonRequest} (hfin : ∃ r, s.phase = .finished r) (hscope : s.scope = false)
    (hr : s.request = some r) (hresponded : r.mResponded = true ↔ answers es ≠ [])
    (hreplies : s.replies = base ++ (answers es).map (Reply.mk .deferredFunction)) :
    Outside pf base es (s.release pf b) := by
  unfold release
  by_cases hc : s.copies = 0
  · rcases destroyRequest_reliable pf hb hr with ⟨hnone, hscope', hcopies, hphase, _, hsent⟩
    simp only [hscope, hc, Bool.not_false, beq_self_eq_true, Bool.and_self, if_true]
    refine ⟨by rwa [hphase], hscope'.trans hscope, .inr ⟨hnone, hcopies.trans hc, ?_⟩⟩
    rw [hsent, hreplies]
    by_cases ha : answers es = []
    · have hdown : r.mResponded = false := by simpa [ha] using hresponded
      simp [ha, hdown]
    · simp [ha, hresponded.mpr ha]
  · simp only [hscope, hc, beq_iff_eq, Bool.and_eq_true, and_false, if_false]
    exact ⟨hfin, hscope, .inl ⟨r, hr, hc, hresponded, hreplies⟩⟩

theorem Outside.step (hb : b.Reliable) {base : List Reply} {es : List Event} {s t : Exchange}
    {e : Event} (h : Outside pf base es s) (hstep : Exchange.step pf b s e = some t) :
    Outside pf base (es ++ [e]) t := by
  rcases h.finished with ⟨_, hfin⟩
  rcases finished_step pf hfin hstep with ⟨a, rfl, ha, rfl⟩
  rcases h.request with ⟨r, hr, hc, hresponded, hreplies⟩ | ⟨_, hc, _⟩
  · cases a with
    | defer => simp [canAct, hfin] at ha
    | copy =>
        refine ⟨h.finished, h.scope, .inl ⟨r, hr, by simp [act], ?_, ?_⟩⟩
        · simpa [answers] using hresponded
        · simpa [act, answers] using hreplies
    | invoke response =>
        rcases invoke_reliable pf hb s response with ⟨hscope, hcopies, hphase, _, hrequest, hsent⟩
        refine ⟨⟨_, hphase.trans hfin⟩, hscope.trans h.scope, .inl ?_⟩
        rw [hrequest, hr, hcopies, hsent, hreplies, answers_concat_invoke]
        cases responseObject response with
        | none => exact ⟨r, rfl, hc, by simpa using hresponded, by simp⟩
        | some payload => exact ⟨_, rfl, hc, by simp, by simp⟩
    | drop =>
        refine Outside.of_release pf hb ⟨_, hfin⟩ h.scope hr ?_ ?_
        · simpa [answers] using hresponded
        · simpa [answers] using hreplies
  · -- with no copy left there is no action to take
    cases a with
    | defer => simp [canAct, hfin] at ha
    | copy | invoke _ | drop => simp [canAct, hc] at ha

/-- Settling a deferred request lowers its flag. -/
theorem Inside.settle_deferred (hb : b.Reliable) {es : List Event} {s : Exchange}
    (h : Inside es s) (hdefer : .act .defer ∈ es) (result : JValue) :
    Outside pf s.replies [] (s.settle pf b result) := by
  rcases h.request with ⟨r, hr, _, hdeferred⟩
  let lowered : Exchange :=
    { s.setResponded false with scope := false, phase := .finished (.ok true) }
  have hlowered : lowered.request = some { r with mResponded := false } := by
    simp [lowered, setResponded, hr]
  have hout : Outside pf s.replies [] (lowered.release pf b) :=
    Outside.of_release pf hb ⟨_, rfl⟩ rfl hlowered (by simp [answers])
      (by simp [lowered, setResponded, answers])
  have hrelease : s.settle pf b result = lowered.release pf b := by
    simp only [settle, hr, Option.map_some, Option.getD_some, hdeferred.mpr hdefer, if_true]
    exact release_withPhase pf { s.setResponded false with scope := false } _
  rwa [hrelease]

/-- Settling a request nobody deferred answers it with the handler's result, and reports
whether that is a reply. -/
theorem Inside.settle_undeferred (hb : b.Reliable) {es : List Event} {s : Exchange}
    (h : Inside es s) (hdefer : .act .defer ∉ es) (result : JValue) :
    let t := s.settle pf b result
    t.phase = .finished (.ok (responseObject result).isSome) ∧ t.copies = 0 ∧
      t.replies = (responseObject result).toList.map (Reply.mk .handlerResult) := by
  rcases h.request with ⟨r, hr, hresponded, hdeferred⟩
  have hflag : r.mDeferred = false := by simpa using hdeferred.not.mpr hdefer
  have hcopies : s.copies = 0 := by
    by_contra hc
    exact hdefer (h.copies hc)
  have hreplies : s.replies = [] := by
    by_cases ha : answers es = []
    · simpa [ha] using h.replies
    · exact absurd (h.answered ha) hdefer
  simp only [settle, hr, Option.map_some, Option.getD_some, hflag, Bool.false_eq_true, if_false,
    respond_reliable hb]
  cases responseObject result with
  | none =>
      dsimp only
      rw [leaveScope_of_responded pf b hr hresponded hcopies, catchClause_reliable pf hb]
      simp [hcopies, hreplies, thrownReply]
  | some payload =>
      dsimp only
      rw [leaveScope_of_responded pf b (r := { r with mResponded := true })
        rfl rfl (by simpa [setResponded] using hcopies)]
      simp [setResponded, hcopies, hreplies]

/-- Nothing happens to a finished call without copies of its deferred function. -/
theorem run_of_no_copies {s t : Exchange} {r : Except Exn Bool} {es : List Event}
    (hs : s.phase = .finished r) (hc : s.copies = 0)
    (h : run (Exchange.step pf b) s es = some t) : es = [] ∧ t = s := by
  cases es with
  | nil => exact ⟨rfl, (Option.some.inj h).symm⟩
  | cons e es =>
      rcases run_cons_iff.mp h with ⟨m, hm, _⟩
      rcases finished_step pf hs hm with ⟨a, rfl, ha, _⟩
      cases a with
      | defer => simp [canAct, hs] at ha
      | copy | invoke _ | drop => simp [canAct, hc] at ha

/-! ## The replies of a whole run -/

/-- All replies of a call whose request is gone: those of the deferred function from
before and after the flags were settled, and the handler's result or the stock reply. -/
theorem replies_of_run (hb : b.Reliable) {params : JValue} {pre post : List Event}
    {result : JValue} {s : Exchange}
    (h : run (Exchange.step pf b) (enterHandler params) (pre ++ .settle :: post) = some s)
    (hresult : .handlerReturns result ∈ pre) (hgone : s.request = none) :
    (.act .defer ∉ pre →
      s.replies = (responseObject result).toList.map (Reply.mk .handlerResult) ∧
        s.phase = .finished (.ok (responseObject result).isSome)) ∧
    (.act .defer ∈ pre →
      s.replies = (answers pre ++ answers post).map (Reply.mk .deferredFunction) ++
        if answers post = [] then [stockReply pf] else []) := by
  rcases run_split_iff.mp h with ⟨m, n, hm, hn, hs⟩
  rcases step_cases pf hn with
    ⟨_, hact, _⟩ | ⟨_, hact, _⟩ | ⟨_, hact, _⟩ | ⟨v, _, hphase, rfl⟩
  · cases hact
  · cases hact
  · cases hact
  · have hin := inside_of_run pf hb hm (by simp [hphase])
    obtain rfl : result = v := hin.returned v hphase result hresult
    constructor
    · intro hdefer
      rcases hin.settle_undeferred pf hb hdefer result with ⟨hfin, hcopies, hreplies⟩
      rcases run_of_no_copies pf hfin hcopies hs with ⟨_, rfl⟩
      exact ⟨hreplies, hfin⟩
    · intro hdefer
      have hout : Outside pf m.replies post s :=
        run_history (P := fun es s => Outside pf m.replies es s)
          (hin.settle_deferred pf hb hdefer result)
          (fun _ _ _ _ _ ho hstep => ho.step pf hb hstep) hs
      rcases hout.request with ⟨_, hr, _⟩ | ⟨_, _, hreplies⟩
      · rw [hgone] at hr
        cases hr
      · rw [hreplies, hin.replies, List.map_append]

/-- A handler that has returned is still waiting for its flags to be settled, or they
were settled after its return. -/
theorem settled_of_run {params : JValue} {es : List Event} {s : Exchange}
    (h : run (Exchange.step pf b) (enterHandler params) es = some s) (result : JValue)
    (hresult : .handlerReturns result ∈ es) :
    s.phase = .returned result ∨
      ∃ pre post, es = pre ++ .settle :: post ∧ .handlerReturns result ∈ pre := by
  refine run_history (P := fun es s => .handlerReturns result ∈ es → s.phase = .returned result ∨
    ∃ pre post, es = pre ++ .settle :: post ∧ .handlerReturns result ∈ pre) (by simp) ?_ h hresult
  intro es e m n _ hm hn hmem
  rw [List.mem_append, List.mem_singleton] at hmem
  by_cases hes : .handlerReturns result ∈ es
  · rcases hm hes with hphase | ⟨pre, post, rfl, hpre⟩
    · rcases step_cases pf hn with
        ⟨a, rfl, _, rfl⟩ | ⟨_, _, hrun, _⟩ | ⟨_, _, hrun, _⟩ | ⟨_, rfl, _, _⟩
      · exact .inl ((act_phase pf m a).trans hphase)
      · rw [hphase] at hrun; cases hrun
      · rw [hphase] at hrun; cases hrun
      · exact .inr ⟨es, [], rfl, hes⟩
    · exact .inr ⟨pre, post ++ [e], by simp, hpre⟩
  · obtain rfl := hmem.resolve_left hes
    rcases step_cases pf hn with ⟨_, hact, _⟩ | ⟨_, hret, _, rfl⟩ | ⟨_, hthr, _⟩ | ⟨_, hset, _⟩
    · cases hact
    · cases hret
      exact .inl rfl
    · cases hthr
    · cases hset

/-- When others have answered, neither side of the equivalence about the stock reply holds. -/
theorem stockReply_mem_iff {sender : Sender} (hsender : sender ≠ .destructor) {answers : List Json}
    (hanswers : answers ≠ []) :
    stockReply pf ∈ answers.map (Reply.mk sender) ↔
      ∀ reply ∈ answers.map (Reply.mk sender), reply = stockReply pf := by
  constructor
  · intro hmem
    rcases List.mem_map.mp hmem with ⟨_, _, heq⟩
    exact absurd (congrArg Reply.sender heq) hsender
  · intro hall
    rcases List.exists_mem_of_ne_nil answers hanswers with ⟨answer, hmem⟩
    exact hall _ (List.mem_map_of_mem hmem) ▸ List.mem_map_of_mem hmem

/-- What the caller of a call whose handler returned has received when the request is
destroyed. A result that is no reply is answered by nobody unless the handler deferred, and
`handleLunaCall` reports that; otherwise there is a reply, and the stock reply is sent
exactly when it is the only one, except for a call whose only answers came before its flags
were settled. -/
theorem replies_of_destroyed (pf : Platform) (b : Bus) (hb : b.Reliable) (payload : String)
    (schema : pf.JSchema) (value result : JValue) (events : List Event) (s : Exchange)
    (hvalid : validate pf payload schema = .ok value)
    (h : run (Exchange.step pf b) (start pf b payload schema) events = some s)
    (hresult : .handlerReturns result ∈ events) (hgone : s.request = none) :
    ∃ pre post, events = pre ++ .settle :: post ∧ .handlerReturns result ∈ pre ∧
      (.act .defer ∉ pre → responseObject result = none →
        s.replies = [] ∧ s.phase = .finished (.ok false)) ∧
      ((.act .defer ∉ pre → responseObject result ≠ none) →
        (.act .defer ∈ pre → answers pre = [] ∨ answers post ≠ []) →
        s.replies ≠ [] ∧
          (stockReply pf ∈ s.replies ↔ ∀ reply ∈ s.replies, reply = stockReply pf)) := by
  rw [start, hvalid] at h
  rcases settled_of_run pf h result hresult with hphase | ⟨pre, post, rfl, hpre⟩
  · rcases (inside_of_run pf hb h (by simp [hphase])).request with ⟨_, hr, _⟩
    rw [hgone] at hr
    cases hr
  · rcases replies_of_run pf hb h hpre hgone with ⟨hundeferred, hdeferred⟩
    refine ⟨pre, post, rfl, hpre, ?_, ?_⟩
    · intro hdefer hnone
      rcases hundeferred hdefer with ⟨hreplies, hfinished⟩
      simp [hreplies, hfinished, hnone]
    · intro hobject hanswered
      by_cases hdefer : .act .defer ∈ pre
      · rw [hdeferred hdefer]
        by_cases hpost : answers post = []
        · have hnone : answers pre = [] := (hanswered hdefer).resolve_right (not_not.mpr hpost)
          simp [hpost, hnone]
        · have hsent : answers pre ++ answers post ≠ [] := by simp [hpost]
          simp only [hpost, if_false, List.append_nil]
          exact ⟨by simpa using hsent, stockReply_mem_iff pf (by decide) hsent⟩
      · have hsent : (responseObject result).toList ≠ [] := by simpa using hobject hdefer
        rw [(hundeferred hdefer).1]
        exact ⟨by simpa using hsent, stockReply_mem_iff pf (by decide) hsent⟩

/-- A handler that returns null leaves its caller without any reply. -/
theorem null_result_unanswered :
    ∃ s, run (Exchange.step .ofEmptyObject .reliable) (start .ofEmptyObject .reliable "\x7b\x7d" ())
        [.handlerReturns (.valid .null), .settle] = some s ∧
      s.request = none ∧ s.replies = [] :=
  ⟨_, rfl, rfl, rfl⟩

/-- A call deferred, answered after its handler returned, and let go. -/
theorem replies_of_destroyed_answered :
    let events : List Event := [.act .defer, .handlerReturns (.valid .null), .settle,
      .act (.invoke (.valid (.object []))), .act .drop]
    ∃ s, run (Exchange.step .ofEmptyObject .reliable) (start .ofEmptyObject .reliable "\x7b\x7d" ())
        events = some s ∧
      ∃ pre post, events = pre ++ .settle :: post ∧ .handlerReturns (.valid .null) ∈ pre ∧
        (.act .defer ∉ pre → responseObject (.valid .null) = none →
          s.replies = [] ∧ s.phase = .finished (.ok false)) ∧
        ((.act .defer ∉ pre → responseObject (.valid .null) ≠ none) →
          (.act .defer ∈ pre → answers pre = [] ∨ answers post ≠ []) →
          s.replies ≠ [] ∧ (stockReply .ofEmptyObject ∈ s.replies ↔
            ∀ reply ∈ s.replies, reply = stockReply .ofEmptyObject)) :=
  ⟨_, rfl, replies_of_destroyed .ofEmptyObject .reliable Bus.reliable_reliable "\x7b\x7d" ()
    (.valid (.object [])) (.valid .null) _ _ rfl rfl (by simp) rfl⟩

/-! ## The call as a run -/

/-- The actions of a handler that can be taken are a run that leaves it where it is. -/
theorem perform_run (actions : List Action) {s : Exchange} (hscope : s.scope = true)
    (hs : s.terminated = false) :
    ∃ events, run (Exchange.step pf b) s events = some (actions.foldl (perform pf b) s) ∧
      (actions.foldl (perform pf b) s).phase = s.phase ∧
      (actions.foldl (perform pf b) s).terminated = false := by
  induction actions generalizing s with
  | nil => exact ⟨[], rfl, rfl, hs⟩
  | cons a actions ih =>
      rw [List.foldl_cons]
      by_cases ha : s.canAct a = true
      · rcases act_inside pf hscope a (b := b) with ⟨hends, hscope'⟩
        rcases ih hscope' (hends.trans hs) with ⟨events, hrun, hphase, halive⟩
        have hperform : perform pf b s a = s.act pf b a := if_pos ha
        have hstep : Exchange.step pf b s (.act a) = some (s.act pf b a) := by
          simp [Exchange.step, hs, ha]
        rw [hperform]
        exact ⟨.act a :: events, run_cons_iff.mpr ⟨_, hstep, hrun⟩,
          hphase.trans (act_phase pf s a), halive⟩
      · have hperform : perform pf b s a = s := if_neg ha
        rw [hperform]
        exact ih hscope hs

/-- `handleLunaCall` with a handler's script is one of the runs, on any bus. -/
theorem handleLunaCall_run (payload : String) (schema : pf.JSchema) (handler : Handler) :
    ∃ events, run (Exchange.step pf b) (start pf b payload schema) events =
      some (handleLunaCall pf b payload schema handler) := by
  unfold start handleLunaCall
  cases validate pf payload schema with
  | error e => exact ⟨[], rfl⟩
  | ok value =>
      rcases perform_run pf (handler value).actions (s := enterHandler value) rfl rfl (b := b) with
        ⟨events, hrun, hphase, halive⟩
      dsimp only
      generalize (handler value).actions.foldl (perform pf b) (enterHandler value) = s at *
      replace hphase : s.phase = .running := hphase
      cases (handler value).outcome with
      | returns result =>
          refine ⟨events ++ [.handlerReturns result, .settle], run_append_iff.mpr ⟨_, hrun, ?_⟩⟩
          have hreturn : Exchange.step pf b s (.handlerReturns result) =
              some { s with phase := .returned result } := by
            simp [Exchange.step, hphase, halive]
          have hsettle : Exchange.step pf b { s with phase := .returned result } .settle =
              some (s.settle pf b result) := by
            rw [← settle_withPhase pf s (.returned result)]
            simp [Exchange.step, halive]
          exact run_cons_iff.mpr ⟨_, hreturn, run_cons_iff.mpr ⟨_, hsettle, rfl⟩⟩
      | throws e =>
          refine ⟨events ++ [.handlerThrows e], run_concat_iff.mpr ⟨_, hrun, ?_⟩⟩
          simp [Exchange.step, hphase, halive]

end Exchange

end LSHelpers
