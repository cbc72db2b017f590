import LSHelpers.Call.Stream
import LSHelpers.Transition.Part

/-!
# Calls of a system

A call that is given up has its handler started no more. That, and what holds of the calls
that are kept, holds of the service point of any system in which each step is one of the
service point or leaves it alone.
-/

namespace LSHelpers

open Transition

namespace Channel

variable {pf : Platform}

/-! ## Calls that are given up -/

/-- The call is no longer live, and its address was used. -/
structure GivenUp (pf : Platform) (s : Channel) (c : MadeCall) : Prop extends s.Served pf where
  made : c ∈ s.calls
  dead : c.call ∉ s.caller.live

theorem step_calls {s n : Channel} {e : Event} {c : MadeCall} (hc : c ∈ s.calls)
    (hstep : Channel.step pf s e = some n) : c ∈ n.calls := by
  rcases List.mem_map.mp hc with ⟨link, hlink, rfl⟩
  rcases List.mem_iff_getElem?.mp hlink with ⟨i, hi⟩
  rcases step_link hstep hi with ⟨link', hi', hmade, _⟩
  exact hmade ▸ call_mem hi'

/-- A handler is started by a message for its own call only. -/
theorem Joined.handledAt_step {s n : Channel} {e : Event} {c : MadeCall} {t : LSMessageToken}
    {a : Nat} (h : s.Joined) (hc : c ∈ s.calls) (hcall : c.call = ⟨t, some a⟩)
    (hstep : Channel.step pf s e = some n) (hdead : c.call ∉ s.caller.live) :
    n.handledAt a = s.handledAt a := by
  cases step_cases pf hstep with
  | @delivered i link message caller hi hmessage hlive hcaller =>
      rcases List.mem_map.mp hc with ⟨old, hmem, rfl⟩
      rcases List.mem_iff_getElem?.mp hmem with ⟨j, hj⟩
      have hij : j ≠ i := by
        rintro rfl
        obtain rfl := Option.some.inj (hi.symm.trans hj)
        exact hdead hlive
      exact filter_context_ne (h.handledAt_other hi hj hij hcall) _ _
  | _ => rfl

/-- Calls do not come back to life. -/
theorem GivenUp.step {s n : Channel} {e : Event} {c : MadeCall} {t : LSMessageToken} {a : Nat}
    (h : s.GivenUp pf c) (hcall : c.call = ⟨t, some a⟩)
    (hstep : Channel.step pf s e = some n) :
    n.GivenUp pf c ∧ n.handledAt a = s.handledAt a := by
  have hdead {caller : Caller} {e : Caller.CallEvent}
      (hcaller : s.caller.callStep e = some caller) : c.call ∉ caller.live := by
    intro hlive
    have hused := h.used c h.made t a hcall
    rw [hcall] at hlive
    exact h.dead (hcall ▸ (h.idle.live_of_callStep hcaller).2 t a hlive hused)
  refine ⟨⟨h.toServed.step hstep, step_calls h.made hstep, ?_⟩,
    h.handledAt_step h.made hcall hstep h.dead⟩
  cases step_cases pf hstep with
  | called hcaller | cancelCall hcaller | destroy hcaller | delivered _ _ _ hcaller =>
      exact hdead hcaller
  | failed | send _ | dropped _ _ _ => exact h.dead

/-- Giving a call up starts no handler, and leaves the call dead. -/
theorem Served.givesUp {s n : Channel} {e : Event} {c : MadeCall} {t : LSMessageToken} {a : Nat}
    (h : s.Served pf) (hc : c ∈ s.calls) (hcall : c.call = ⟨t, some a⟩)
    (hgives : e.givesUp t = true) (hstep : Channel.step pf s e = some n) :
    n.GivenUp pf c ∧ n.handledAt a = s.handledAt a := by
  have hdead {caller : Caller} {e : Caller.CallEvent}
      (hcaller : s.caller.callStep e = some caller) (hcloses : e.closes t c.oneReply = true) :
      c.call ∉ caller.live := by
    intro hlive
    rw [hcall] at hlive
    have hbefore := (h.idle.live_of_callStep hcaller).2 t a hlive (h.used c hc t a hcall)
    have hkind := h.kind c hc t a hcall hbefore
    have hopen := (h.idle.live_iff hcaller hbefore hkind).mp hlive
    rw [hcloses] at hopen
    cases hopen
  cases step_cases pf hstep with
  | cancelCall hcaller =>
      exact ⟨⟨h.step hstep, step_calls hc hstep, hdead hcaller hgives⟩, rfl⟩
  | destroy hcaller =>
      exact ⟨⟨h.step hstep, step_calls hc hstep, hdead hcaller rfl⟩, rfl⟩
  | called _ | failed | send _ | delivered _ _ _ _ | dropped _ _ _ => cases hgives

/-! ## Systems with a service point in them -/

section

variable {σ α : Type*} {step : σ → α → Option σ} {view : σ → Channel}
  {givesUp : LSMessageToken → α → Bool}

/-- Each step is one of the service point, which gives up the same, or leaves it alone. -/
def IsView (pf : Platform) (step : σ → α → Option σ) (view : σ → Channel)
    (givesUp : LSMessageToken → α → Bool) : Prop :=
  ∀ s a t, step s a = some t →
    (view t = view s ∧ ∀ token, givesUp token a = false) ∨
      ∃ e, Channel.step pf (view s) e = some (view t) ∧ ∀ token, e.givesUp token = givesUp token a

theorem IsView.served_of_run (h : IsView pf step view givesUp) {m s : σ} {as : List α}
    (hm : (view m).Served pf) (hs : run step m as = some s) : (view s).Served pf := by
  refine run_invariant (I := fun s => (view s).Served pf) ?_ hs hm
  intro u a v hu hv
  rcases h u a v hv with ⟨hsame, _⟩ | ⟨e, he, _⟩
  · rwa [hsame]
  · exact hu.step he

theorem IsView.kept_of_run (h : IsView pf step view givesUp) {m n s : σ} {as : List α}
    {oneReply : Bool} {token : LSMessageToken} (hm : (view m).Served pf)
    (hn : Channel.step pf (view m) (.makeCall true oneReply (some token)) = some (view n))
    (hs : run step n as = some s) (hkept : ∀ a ∈ as, givesUp token a = false) :
    ∃ link, (view s).links[(view m).links.length]? = some link ∧
      link.toMadeCall = (view m).makes true oneReply token ∧
      (view s).handledAt (view m).caller.nextAddress =
        (link.responses pf).take (if oneReply then min 1 link.taken else link.taken) := by
  have hopen : Meets step (fun _ a => givesUp token a = false) n as :=
    Meets.of_forall fun a ha _ => hkept a ha
  have hmatch : ∀ u a v, givesUp token a = false → step u a = some v →
      ∃ es, run (Channel.step pf) (view u) es = some (view v) ∧
        Meets (Channel.step pf) (fun _ e => e.givesUp token = false) (view u) es := by
    intro u a v ha hv
    rcases h u a v hv with ⟨hsame, _⟩ | ⟨e, he, hgives⟩
    · exact ⟨[], congrArg some hsame.symm, meets_nil⟩
    · refine ⟨[e], by simp [run, he], Meets.of_forall fun e' he' _ => ?_⟩
      rw [List.mem_singleton.mp he', hgives, ha]
  rcases run_refine_of_meets hmatch hopen hs with ⟨es, hes, hmeets⟩
  exact Channel.kept_of_run hm hn hmeets hes

/-- A call that is given up has its handler started no more. -/
theorem IsView.handledAt_of_givesUp (h : IsView pf step view givesUp) {m s : σ} {a : α}
    {as : List α} {c : MadeCall} {t : LSMessageToken} {address : Nat} (hm : (view m).Served pf)
    (hc : c ∈ (view m).calls) (hcall : c.call = ⟨t, some address⟩)
    (hgives : givesUp t a = true) (hs : run step m (a :: as) = some s) :
    (view s).handledAt address = (view m).handledAt address := by
  rcases run_cons_iff.mp hs with ⟨n, hn, hrest⟩
  have hfirst : (view n).GivenUp pf c ∧ (view n).handledAt address = (view m).handledAt address := by
    rcases h m a n hn with ⟨_, hkept⟩ | ⟨e, he, hsame⟩
    · rw [hkept] at hgives
      cases hgives
    · exact hm.givesUp hc hcall ((hsame t).trans hgives) he
  have hlast := run_invariant (I := fun s => (view s).GivenUp pf c ∧
    (view s).handledAt address = (view m).handledAt address) ?_ hrest hfirst
  · exact hlast.2
  · intro u a v hu hv
    rcases h u a v hv with ⟨hsame, _⟩ | ⟨e, he, _⟩
    · rwa [hsame]
    · rcases hu.1.step hcall he with ⟨hnext, hhandled⟩
      exact ⟨hnext, hhandled.trans hu.2⟩

end

end Channel

end LSHelpers
