import LSHelpers.Call.Linked

/-!
# Replies between a call and its insertion

`callResponseHandler` cancels a one-reply call by the token in its object and erases the
entry under that token. Until `makeCall` has stored the token the object has none, and
until the insertion there is no entry: a reply that is handled in between leaves the call
live or leaves `makeCall` to enter it into the table after its reply.
-/

namespace LSHelpers

namespace Caller

open Transition

/-- No one-reply handler is started twice, and a one-reply call that is answered and
whose `makeCall` has returned is not in the table. -/
structure Answered (s : Caller) : Prop where
  once : ((s.started.filter Invocation.oneReply).map Invocation.address).Nodup
  removed : ∀ x ∈ s.started, x.oneReply = true → (∀ i ∈ s.pending, i.address ≠ x.address) →
    ∀ t, s.entryAt t ≠ some x.address

/-- Nothing is left on the bus of a one-reply call that is answered. -/
structure Settled (s : Caller) : Prop where
  once : ((s.started.filter Invocation.oneReply).map Invocation.address).Nodup
  ended : ∀ x ∈ s.started, x.oneReply = true → ∀ t, ⟨t, some x.address⟩ ∉ s.live
  used : ∀ x ∈ s.started, x.address < s.nextAddress

theorem settled_init (handle : Option LSHandle) : (init handle).Settled := by
  constructor <;> simp [init]

theorem Settled.answered {s : Caller} (h : s.Settled) (hs : s.Linked) : s.Answered where
  once := h.once
  removed := fun x hx hone _ t ht => h.ended x hx hone t (hs.entry t x.address ht).1

/-- A handler that is started does not disturb the others. -/
theorem Settled.startHandler {s : Caller} (h : s.Settled) {a : Nat} {oneReply : Bool}
    (ha : a < s.nextAddress) (hover : oneReply = true → ∀ t, ⟨t, some a⟩ ∉ s.live)
    (hnew : oneReply = true → ∀ x ∈ s.started, x.oneReply = true → x.address ≠ a) :
    (s.startHandler a oneReply).Settled := by
  constructor
  · cases oneReply with
    | false => simpa [Caller.startHandler] using h.once
    | true =>
        simp only [Caller.startHandler, List.filter_append, List.map_append]
        refine h.once.append (List.nodup_singleton a) ?_
        show List.Disjoint _ [a]
        rw [List.disjoint_singleton]
        intro hmem
        rcases List.mem_map.mp hmem with ⟨x, hx, rfl⟩
        rcases List.mem_filter.mp hx with ⟨hx, hone⟩
        exact hnew rfl x hx hone rfl
  · intro x hx hone t
    rcases List.mem_append.mp hx with hx | hx
    · exact h.ended x hx hone t
    · rw [List.mem_singleton] at hx
      subst hx
      exact hover hone t
  · intro x hx
    rcases List.mem_append.mp hx with hx | hx
    · exact h.used x hx
    · rw [List.mem_singleton] at hx
      subst hx
      exact ha

/-- A step that starts no handler. -/
theorem Settled.of_started {s n : Caller} (h : s.Settled) (hstarted : n.started = s.started)
    (hnext : s.nextAddress ≤ n.nextAddress)
    (hlive : ∀ t a, ⟨t, some a⟩ ∈ n.live → a < s.nextAddress → ⟨t, some a⟩ ∈ s.live) :
    n.Settled := by
  constructor
  · rw [hstarted]
    exact h.once
  · intro x hx hone t hmem
    rw [hstarted] at hx
    exact h.ended x hx hone t (hlive t x.address hmem (h.used x hx))
  · intro x hx
    rw [hstarted] at hx
    exact Nat.lt_of_lt_of_le (h.used x hx) hnext

theorem Settled.step {s n : Caller} {e : Event} (h : s.Settled) (hs : s.Linked)
    (hearly : ¬s.EarlyReply e) (hstep : Caller.step s e = some n) : n.Settled := by
  have hbus := hs.step_live hearly hstep
  cases hs.stepped hearly hstep with
  | replyMore hlive _ _ =>
      exact h.startHandler (hs.used _ _ hlive) (by simp) (by simp)
  | replyLast hp hentry hcall hone =>
      rename_i p t a call
      have hlive := (hs.entry t a hentry).1
      have hclosed : ((s.lsCallCancel t).eraseCall p t).Settled :=
        h.of_started rfl le_rfl hbus.2
      refine hclosed.startHandler (hs.used t a hlive) (fun _ t' hmem => ?_) (fun _ x hx hxone => ?_)
      · rcases mem_live_lsCallCancel.mp hmem with ⟨hmem, hne⟩
        exact hne (hs.contexts t' t a hmem hlive)
      · intro heq
        subst heq
        exact h.ended x hx hxone t hlive
  | _ => exact h.of_started rfl hbus.1 hbus.2

theorem settled_of_run {handle : Option LSHandle} {events : List Event} {s : Caller}
    (hmeets : Meets step (fun m e => ¬m.EarlyReply e) (init handle) events)
    (h : run step (init handle) events = some s) : s.Linked ∧ s.Settled := by
  refine run_induction (P := fun _ m => m.Linked ∧ m.Settled)
    ⟨linked_init handle, settled_init handle⟩ ?_ hmeets h
  intro es e m n _ hm hearly hn
  exact ⟨hm.1.step hearly hn, hm.2.step hm.1 hearly hn⟩

/-! ## The other direction -/

/-- An early reply starts the handler of a call that is still under way. -/
theorem Linked.step_early {s n : Caller} (h : s.Linked) {i : Issued} (hi : i ∈ s.pending)
    {call : Call} (hcall : s.heap i.address = some call) (hone : call.oneReply = true)
    (hstep : Caller.step s (.reply i.token) = some n) :
    i ∈ n.pending ∧ ⟨i.address, true⟩ ∈ n.started := by
  have hlive := (h.pending i hi).1
  rcases reply_cases hstep with
    ⟨hunheard, _⟩ | ⟨a, call', hmore, hcall', hnot, _⟩ | ⟨p, a, call', _, hlast, _, _, rfl⟩
  · exact absurd rfl ((h.unheard hunheard).1 i hi)
  · obtain rfl := h.address_of_token hlive hmore
    obtain rfl := Option.some.inj (hcall.symm.trans hcall')
    rw [hone] at hnot
    cases hnot
  · obtain rfl := h.address_of_token hlive hlast
    exact ⟨hi, by simp [Caller.startHandler]⟩

theorem started_of_step {s n : Caller} {e : Event} {x : Invocation} (hx : x ∈ s.started)
    (hstep : step s e = some n) : x ∈ n.started := by
  rcases step_started hstep with hsame | ⟨_, _, _, _, _, hmore⟩
  · exact hsame ▸ hx
  · exact hmore ▸ List.mem_append_left _ hx

/-- After an early reply the call is still under way, or the table has had an entry it
should not have. -/
theorem meets_or_unanswered {handle : Option LSHandle} {events : List Event} {s : Caller}
    (h : run step (init handle) events = some s) :
    s.Numbered ∧
      (Meets step (fun m e => ¬m.EarlyReply e) (init handle) events ∨
        (∃ i ∈ s.pending, ⟨i.address, true⟩ ∈ s.started) ∨
        ∃ pre post m, events = pre ++ post ∧ run step (init handle) pre = some m ∧
          ¬m.Answered) := by
  refine run_history (P := fun events s => s.Numbered ∧
    (Meets step (fun m e => ¬m.EarlyReply e) (init handle) events ∨
      (∃ i ∈ s.pending, ⟨i.address, true⟩ ∈ s.started) ∨
      ∃ pre post m, events = pre ++ post ∧ run step (init handle) pre = some m ∧ ¬m.Answered))
    ⟨numbered_init handle, .inl meets_nil⟩ ?_ h
  intro es e m n hm hprev hn
  rcases hprev with ⟨hnumbered, hcases⟩
  refine ⟨hnumbered.step hn, ?_⟩
  rcases hcases with hmeets | ⟨i, hi, hstarted⟩ | ⟨pre, post, w, rfl, hw, hbad⟩
  · by_cases hearly : m.EarlyReply e
    · have hlinked := (settled_of_run hmeets hm).1
      rcases hearly with ⟨i, hi, ⟨call, hcall, hone⟩, rfl⟩
      exact .inr (.inl ⟨i, hlinked.step_early hi hcall hone hn⟩)
    · exact .inl (hmeets.append hm (meets_cons_iff.mpr ⟨hearly, fun _ _ => meets_nil⟩))
  · have hkept := started_of_step hstarted hn
    rcases hnumbered.step_pending hi hn with hstays | ⟨hentry, hnone⟩
    · exact .inr (.inl ⟨i, hstays, hkept⟩)
    · refine .inr (.inr ⟨es ++ [e], [], n, by simp, run_concat_iff.mpr ⟨m, hm, hn⟩, ?_⟩)
      intro hanswered
      exact hanswered.removed _ hkept rfl hnone _ hentry
  · exact .inr (.inr ⟨pre, post ++ [e], w, by simp, hw, hbad⟩)

/-- One-reply calls are answered once and leave the table, in every state of a run in
which no reply to one of them is handled while its `makeCall` is under way; and in no
other run, once every `makeCall` has returned. -/
theorem answered_iff_no_early_reply (handle : Option LSHandle) (events : List Event) (s : Caller)
    (h : run step (init handle) events = some s) :
    (Meets step (fun m e => ¬m.EarlyReply e) (init handle) events →
      ∀ pre post m, events = pre ++ post → run step (init handle) pre = some m → m.Answered) ∧
    (s.pending = [] →
      (∀ pre post m, events = pre ++ post → run step (init handle) pre = some m → m.Answered) →
      Meets step (fun m e => ¬m.EarlyReply e) (init handle) events) := by
  constructor
  · intro hmeets pre post m hsplit hm
    subst hsplit
    rcases settled_of_run hmeets.prefix hm with ⟨hlinked, hsettled⟩
    exact hsettled.answered hlinked
  · intro hreturned hall
    rcases (meets_or_unanswered h).2 with hmeets | ⟨i, hi, _⟩ | ⟨pre, post, m, hsplit, hm, hbad⟩
    · exact hmeets
    · rw [hreturned] at hi
      cases hi
    · exact absurd (hall pre post m hsplit hm) hbad

/-- The reply overtakes the token: the call stays in the table and on the bus, and a
second reply starts its handler again. -/
theorem started_twice_after_early_reply :
    ∃ s t, run step (init (some 1)) [.issue true 7, .reply 7, .store 0, .insert 0] = some s ∧
      s.pending = [] ∧ s.started = [⟨0, true⟩] ∧ s.entryAt 7 = some 0 ∧ ¬s.Answered ∧
      run step s [.reply 7] = some t ∧ t.started = [⟨0, true⟩, ⟨0, true⟩] := by
  refine ⟨_, _, rfl, rfl, rfl, rfl, fun h => ?_, rfl, rfl⟩
  exact h.removed ⟨0, true⟩ (by decide) rfl (by decide) 7 rfl

/-- Two calls whose replies come after their insertion, in the other order. -/
theorem answered_iff_no_early_reply_two :
    let events : List Event := [.issue true 7, .issue true 8, .store 1, .insert 1, .store 0,
      .reply 8, .insert 0, .reply 7]
    ∃ s, run step (init (some 1)) events = some s ∧
      (Meets step (fun m e => ¬m.EarlyReply e) (init (some 1)) events →
        ∀ pre post m, events = pre ++ post → run step (init (some 1)) pre = some m → m.Answered) ∧
      (s.pending = [] →
        (∀ pre post m, events = pre ++ post → run step (init (some 1)) pre = some m → m.Answered) →
        Meets step (fun m e => ¬m.EarlyReply e) (init (some 1)) events) :=
  ⟨_, rfl, answered_iff_no_early_reply (some 1) _ _ rfl⟩

end Caller

end LSHelpers
