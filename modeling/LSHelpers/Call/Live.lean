import LSHelpers.Call.Table

/-!
# Live calls

A call that is live on the bus stays live until it is closed, and a reply to it starts its
handler. This is what the sides of a call need to know of the service point that made it.
-/

namespace LSHelpers

open Transition

namespace Caller

section

variable {s n : Caller} {e : CallEvent}

theorem callStep_makeCall {hasHandler oneReply : Bool} {token : LSMessageToken}
    (hstep : callStep s (.makeCall hasHandler oneReply (some token)) = some n) :
    (hasHandler = true ∧ ∃ p, s.point = some p ∧ s.freshToken token = true ∧
      n = s.made p oneReply token) ∨ (hasHandler = false ∧ n = s.fireAndForget token) := by
  rcases callStep_cases hstep with
    ⟨p, kind, t, heq, hp, _, hfresh, rfl⟩ | ⟨p, t, heq, _, _, _, rfl⟩ | ⟨_, _, heq, _⟩ | ⟨_, heq, _⟩
  · cases heq
    exact .inl ⟨rfl, p, hp, hfresh, rfl⟩
  · cases heq
    exact .inr ⟨rfl, rfl⟩
  · cases heq
  · cases heq

/-- A call that the bus has not taken. -/
theorem callStep_failed {hasHandler oneReply : Bool}
    (h : callStep s (.makeCall hasHandler oneReply none) = some n) : n = s := by
  rcases Option.bind_eq_some_iff.mp h with ⟨p, _, hite⟩
  simpa [Caller.canGive, Caller.makeCall_none, eq_comm] using hite

variable (h : s.Idle)
include h

theorem Idle.entryAt {t : LSMessageToken} {a : Nat} (hlive : ⟨t, some a⟩ ∈ s.live) :
    s.entryAt t = some a := by
  rcases h.1.owned t a hlive with hpending | hentry
  · rw [h.2] at hpending
    cases hpending
  · exact hentry

/-- A live call with a context has its object in the table. -/
theorem Idle.holds {t : LSMessageToken} {a : Nat} (hlive : ⟨t, some a⟩ ∈ s.live) :
    ∃ oneReply, s.Holds t oneReply := by
  have hentry := h.entryAt hlive
  rcases (h.1.entry t a hentry).2 with ⟨call, hcall, _⟩
  exact ⟨call.oneReply, a, call, hentry, hcall, rfl⟩

/-- A call comes to life with an address that was never used. -/
theorem Idle.live_of_callStep (hstep : Caller.callStep s e = some n) :
    s.nextAddress ≤ n.nextAddress ∧ ∀ t a, ⟨t, some a⟩ ∈ n.live → a < s.nextAddress →
      ⟨t, some a⟩ ∈ s.live := by
  rcases h.steps hstep with ⟨events, hrun, hmeets⟩
  rcases started_of_run h.1 hmeets hrun with ⟨hnext, hlive, _⟩
  exact ⟨hnext, hlive⟩

/-- What a step leaves held was held before, and is not what it closes. -/
theorem Idle.holds_of_callStep (hstep : Caller.callStep s e = some n) {t : LSMessageToken} {a : Nat}
    (hlive : ⟨t, some a⟩ ∈ s.live) (kind : Bool) :
    n.Holds t kind ↔ s.Holds t kind ∧ e.closes t kind = false := by
  rcases callStep_cases hstep with
    ⟨p, oneReply, token, rfl, hp, _, hfresh, rfl⟩ | ⟨p, token, rfl, hp, _, _, rfl⟩ |
      ⟨hasHandler, oneReply, rfl, rfl⟩ | ⟨e', he', hone⟩
  · have hne : t ≠ token := (freshToken_iff.mp hfresh).2 _ hlive
    rw [holds_makeCall_iff h.1 hp hfresh]
    simp [CallEvent.closes, hne]
  · simp [CallEvent.closes, Holds, fireAndForget, Caller.entryAt]
  · simp [CallEvent.closes]
  · exact holds_step_iff h he' (hone h.2) t kind

/-- A live call stays live until it is closed. -/
theorem Idle.live_iff (hstep : Caller.callStep s e = some n) {t : LSMessageToken} {a : Nat}
    (hlive : ⟨t, some a⟩ ∈ s.live) {kind : Bool} (hkind : s.Holds t kind) :
    ⟨t, some a⟩ ∈ n.live ↔ e.closes t kind = false := by
  have hn := h.callStep hstep
  have hheld := h.holds_of_callStep hstep hlive kind
  constructor
  · intro hstays
    rcases hn.holds hstays with ⟨kind', hkind'⟩
    have hsame : kind = kind' :=
      hkind.unique ((h.holds_of_callStep hstep hlive kind').mp hkind').1
    exact (hheld.mp (hsame ▸ hkind')).2
  · intro hopen
    rcases hheld.mpr ⟨hkind, hopen⟩ with ⟨a', _, hentry, _⟩
    have hlive' := (hn.1.entry t a' hentry).1
    rcases callStep_cases hstep with
      ⟨p, oneReply, token, rfl, _, _, hfresh, rfl⟩ | ⟨p, token, rfl, _, _, _, rfl⟩ |
        ⟨hasHandler, oneReply, rfl, rfl⟩ | ⟨e', he', hone⟩
    · simpa [made, insert, store, issue, eraseCall] using Or.inl hlive
    · simpa [fireAndForget] using hlive
    · exact hlive
    · have hused : a' < s.nextAddress := by
        have hnext : n.nextAddress = s.nextAddress := by
          rcases step_pending (hone h.2) with
            ⟨_, _, rfl, _⟩ | ⟨_, _, rfl, _⟩ | ⟨_, _, rfl, _⟩ | ⟨_, _, hnext⟩
          · cases e <;> simp [CallEvent.single] at he'
          · cases e <;> simp [CallEvent.single] at he'
          · cases e <;> simp [CallEvent.single] at he'
          · exact hnext
        exact hnext ▸ hn.1.used t a' hlive'
      have hold := (h.live_of_callStep hstep).2 t a' hlive' hused
      exact h.1.address_of_token hlive hold ▸ hlive'

/-- Only a reply starts a handler. -/
theorem Idle.started_of_callStep (hstep : Caller.callStep s e = some n)
    (he : ∀ t, e ≠ .reply t) : n.started = s.started := by
  rcases callStep_cases hstep with
    ⟨_, _, _, rfl, _, _, _, rfl⟩ | ⟨_, _, rfl, _, _, _, rfl⟩ | ⟨_, _, rfl, rfl⟩ | ⟨e', he', hone⟩
  · rfl
  · rfl
  · rfl
  · rcases step_started (hone h.2) with hsame | ⟨t, _, _, rfl, _, _⟩
    · exact hsame
    · cases e with
      | reply t => exact absurd rfl (he t)
      | makeCall _ _ _ | cancelCall _ | destroy => cases he'

/-- A reply to a live call starts its handler, if it has one. -/
theorem Idle.reply_started {c : BusCall} (hc : c ∈ s.live) (hreply : s.reply c.token = some n) :
    n.started.map Invocation.address = s.started.map Invocation.address ++ c.context.toList := by
  rcases reply_cases hreply with
    ⟨hlive, rfl⟩ | ⟨a, _, hlive, _, _, rfl⟩ | ⟨_, a, _, _, hlive, _, _, rfl⟩
  all_goals
    rw [h.1.eq_of_token hc hlive rfl]
    simp [startHandler, lsCallCancel, eraseCall]

end

end Caller

end LSHelpers
