import Mathlib.Data.List.Nodup
import LSHelpers.Call.ServicePoint

/-!
# Calls under way

What a step does to the calls whose `makeCall` has not returned and to the handlers that
have been started. This holds in every run, whatever becomes of the calls on the bus.
-/

namespace LSHelpers

namespace Caller

open Transition

@[simp] theorem mem_live_lsCallCancel {s : Caller} {token : LSMessageToken} {b : BusCall} :
    b ∈ (s.lsCallCancel token).live ↔ b ∈ s.live ∧ b.token ≠ token := by
  simp [lsCallCancel]

theorem entryAt_of_point {s : Caller} {p : ServicePoint} (hp : s.point = some p)
    (t : LSMessageToken) : s.entryAt t = p.mCalls.lookup t := by
  simp [entryAt, hp]

theorem entryAt_eraseCall {s : Caller} {p : ServicePoint} (token t : LSMessageToken) :
    (s.eraseCall p token).entryAt t = if t = token then none else p.mCalls.lookup t := by
  by_cases h : t = token
  · subst h
    simp [entryAt, eraseCall]
  · simp [entryAt, eraseCall, h, AList.lookup_erase_ne h]

theorem entryAt_insert {s : Caller} {p : ServicePoint} (i : Issued) (t : LSMessageToken) :
    (s.insert p i).entryAt t = if t = i.token then some i.address else p.mCalls.lookup t := by
  by_cases h : t = i.token
  · subst h
    simp [entryAt, insert]
  · simp [entryAt, insert, h, AList.lookup_insert_ne h]

theorem withHandle_iff {s n : Caller} {f : ServicePoint → Option Caller} :
    s.withHandle f = some n ↔ ∃ p, s.point = some p ∧ p.mHandle.isSome = true ∧ f p = some n := by
  simp [withHandle, Option.bind_eq_some_iff]

theorem withHandle_ite_iff {s n m : Caller} {c : Bool} :
    s.withHandle (fun _ => if c then some m else none) = some n ↔
      ∃ p, s.point = some p ∧ p.mHandle.isSome = true ∧ c = true ∧ m = n := by
  simp [withHandle_iff]

theorem freshToken_iff {s : Caller} {t : LSMessageToken} :
    s.freshToken t = true ↔ t ≠ LSMESSAGE_TOKEN_INVALID ∧ ∀ b ∈ s.live, b.token ≠ t := by
  simp [freshToken]

/-! ## Replies and cancels -/

/-- A reply ends a call nobody waits for, or starts the handler of one somebody waits for,
after the clean-up where it is the last. -/
theorem reply_cases {s n : Caller} {t : LSMessageToken} (h : s.reply t = some n) :
    (⟨t, none⟩ ∈ s.live ∧ n = s.lsCallCancel t) ∨
    (∃ a call, ⟨t, some a⟩ ∈ s.live ∧ s.heap a = some call ∧ call.oneReply = false ∧
      n = s.startHandler a false) ∨
    (∃ p a call, s.point = some p ∧ ⟨t, some a⟩ ∈ s.live ∧ s.heap a = some call ∧
      call.oneReply = true ∧
      n = ((s.lsCallCancel call.token).eraseCall p call.token).startHandler a true) := by
  unfold reply at h
  split at h
  · cases h
  · rename_i token hfind
    obtain rfl : token = t := by simpa using List.find?_some hfind
    exact .inl ⟨List.mem_of_find?_eq_some hfind, (Option.some.inj h).symm⟩
  · rename_i token a hfind
    obtain rfl : token = t := by simpa using List.find?_some hfind
    have hlive := List.mem_of_find?_eq_some hfind
    rcases Option.bind_eq_some_iff.mp h with ⟨call, hcall, hcleaned⟩
    cases hone : call.oneReply with
    | false =>
        have hn : n = s.startHandler a false := by simpa [hone] using hcleaned.symm
        exact .inr (.inl ⟨a, call, hlive, hcall, hone, hn⟩)
    | true =>
        simp only [hone, if_true, cancelCallObject, hcall, Option.map_some] at hcleaned
        rcases Option.map_eq_some_iff.mp hcleaned with ⟨m, hm, rfl⟩
        rcases Option.bind_eq_some_iff.mp hm with ⟨p, hp, hpm⟩
        obtain rfl := Option.some.inj hpm
        exact .inr (.inr ⟨p, a, call, hp, hlive, hcall, hone, rfl⟩)

/-- A token is cancelled as it is, or as the object under it has it. -/
theorem cancelCall_cases {s n : Caller} {p : ServicePoint} {t : LSMessageToken}
    (h : s.cancelCall p t = some n) :
    (p.mCalls.lookup t = none ∧ n = s.lsCallCancel t) ∨
    (∃ a call, p.mCalls.lookup t = some a ∧ s.heap a = some call ∧
      n = (s.lsCallCancel call.token).eraseCall p call.token) := by
  unfold cancelCall at h
  split at h
  · rename_i hnone
    exact .inl ⟨hnone, (Option.some.inj h).symm⟩
  · rename_i a hentry
    rcases Option.map_eq_some_iff.mp h with ⟨call, hcall, hn⟩
    exact .inr ⟨a, call, hentry, hcall, hn.symm⟩

/-! ## A step -/

/-- A call is issued, or moves on by one part of its `makeCall`. -/
theorem step_pending {s n : Caller} {e : Event} (h : step s e = some n) :
    (∃ oneReply t, e = .issue oneReply t ∧ n.issued = s.issued ++ [⟨s.nextAddress, t⟩] ∧
      n.stored = s.stored ∧ n.nextAddress = s.nextAddress + 1) ∨
    (∃ i ∈ s.issued, e = .store i.address ∧ n.issued = s.issued.erase i ∧
      n.stored = s.stored ++ [i] ∧ n.nextAddress = s.nextAddress) ∨
    (∃ i ∈ s.stored, e = .insert i.address ∧ n.issued = s.issued ∧
      n.stored = s.stored.erase i ∧ n.nextAddress = s.nextAddress ∧
      n.entryAt i.token = some i.address) ∨
    (n.issued = s.issued ∧ n.stored = s.stored ∧ n.nextAddress = s.nextAddress) := by
  cases e with
  | issue oneReply token =>
      rcases withHandle_ite_iff.mp h with ⟨p, _, _, _, rfl⟩
      exact .inl ⟨oneReply, token, rfl, rfl, rfl, rfl⟩
  | store address =>
      rcases withHandle_iff.mp h with ⟨p, _, _, hmap⟩
      rcases Option.map_eq_some_iff.mp hmap with ⟨i, hfind, rfl⟩
      obtain rfl : i.address = address := by simpa using List.find?_some hfind
      exact .inr (.inl ⟨i, List.mem_of_find?_eq_some hfind, rfl, rfl, rfl, rfl⟩)
  | insert address =>
      rcases withHandle_iff.mp h with ⟨p, _, _, hmap⟩
      rcases Option.map_eq_some_iff.mp hmap with ⟨i, hfind, rfl⟩
      obtain rfl : i.address = address := by simpa using List.find?_some hfind
      exact .inr (.inr (.inl ⟨i, List.mem_of_find?_eq_some hfind, rfl, rfl, rfl, rfl,
        by rw [entryAt_insert, if_pos rfl]⟩))
  | fireAndForget token =>
      rcases withHandle_ite_iff.mp h with ⟨p, _, _, _, rfl⟩
      exact .inr (.inr (.inr ⟨rfl, rfl, rfl⟩))
  | reply token =>
      rcases reply_cases h with ⟨_, rfl⟩ | ⟨_, _, _, _, _, rfl⟩ | ⟨_, _, _, _, _, _, _, rfl⟩
      all_goals exact .inr (.inr (.inr ⟨rfl, rfl, rfl⟩))
  | cancelCall token =>
      rcases withHandle_iff.mp h with ⟨p, _, _, hite⟩
      split at hite
      · rcases cancelCall_cases hite with ⟨_, rfl⟩ | ⟨_, _, _, _, rfl⟩
        all_goals exact .inr (.inr (.inr ⟨rfl, rfl, rfl⟩))
      · cases hite
  | destroy =>
      rcases Option.bind_eq_some_iff.mp h with ⟨p, _, hite⟩
      split at hite
      · obtain rfl := Option.some.inj hite
        exact .inr (.inr (.inr ⟨rfl, rfl, rfl⟩))
      · cases hite

/-- A handler is started by a reply to its live call, and by nothing else. -/
theorem step_started {s n : Caller} {e : Event} (h : step s e = some n) :
    n.started = s.started ∨ ∃ t a oneReply, e = .reply t ∧ ⟨t, some a⟩ ∈ s.live ∧
      n.started = s.started ++ [⟨a, oneReply⟩] := by
  cases e with
  | issue oneReply token =>
      rcases withHandle_ite_iff.mp h with ⟨p, _, _, _, rfl⟩
      exact .inl rfl
  | store address | insert address =>
      rcases withHandle_iff.mp h with ⟨p, _, _, hmap⟩
      rcases Option.map_eq_some_iff.mp hmap with ⟨i, _, rfl⟩
      exact .inl rfl
  | fireAndForget token =>
      rcases withHandle_ite_iff.mp h with ⟨p, _, _, _, rfl⟩
      exact .inl rfl
  | reply token =>
      rcases reply_cases h with
        ⟨_, rfl⟩ | ⟨a, _, hlive, _, _, rfl⟩ | ⟨_, a, _, _, hlive, _, _, rfl⟩
      · exact .inl rfl
      · exact .inr ⟨token, a, false, rfl, hlive, rfl⟩
      · exact .inr ⟨token, a, true, rfl, hlive, rfl⟩
  | cancelCall token =>
      rcases withHandle_iff.mp h with ⟨p, _, _, hite⟩
      split at hite
      · rcases cancelCall_cases hite with ⟨_, rfl⟩ | ⟨_, _, _, _, rfl⟩
        all_goals exact .inl rfl
      · cases hite
  | destroy =>
      rcases Option.bind_eq_some_iff.mp h with ⟨p, _, hite⟩
      split at hite
      · obtain rfl := Option.some.inj hite
        exact .inl rfl
      · cases hite

/-! ## Addresses -/

/-- Every call under way has an address of its own, handed out before. -/
structure Numbered (s : Caller) : Prop where
  distinct : (s.pending.map Issued.address).Nodup
  used : ∀ i ∈ s.pending, i.address < s.nextAddress

theorem numbered_init (handle : Option LSHandle) : (init handle).Numbered where
  distinct := List.nodup_nil
  used := by simp [init, pending]

theorem pending_of_store {s n : Caller} {i : Issued} (hi : i ∈ s.issued)
    (hissued : n.issued = s.issued.erase i) (hstored : n.stored = s.stored ++ [i]) :
    n.pending.Perm s.pending := by
  have herase := List.perm_cons_erase hi
  rw [pending, pending, hissued, hstored, ← List.append_assoc]
  exact (List.perm_append_singleton i _).trans (herase.symm.append_right s.stored)

namespace Numbered

variable {s : Caller} (h : s.Numbered)
include h

theorem eq_of_address {i j : Issued} (hi : i ∈ s.pending) (hj : j ∈ s.pending)
    (heq : i.address = j.address) : i = j :=
  List.inj_on_of_nodup_map h.distinct hi hj heq

theorem not_issued {i : Issued} (hi : i ∈ s.stored) : i ∉ s.issued := by
  intro hissued
  have hnodup : (s.issued ++ s.stored).Nodup := List.Nodup.of_map _ h.distinct
  exact (List.nodup_append.mp hnodup).2.2 i hissued i hi rfl

theorem issue {n : Caller} {t : LSMessageToken}
    (hissued : n.issued = s.issued ++ [⟨s.nextAddress, t⟩]) (hstored : n.stored = s.stored)
    (hnext : n.nextAddress = s.nextAddress + 1) : n.Numbered := by
  have hperm : n.pending.Perm (⟨s.nextAddress, t⟩ :: s.pending) := by
    rw [pending, hissued, hstored, List.append_assoc]
    exact List.perm_middle
  constructor
  · apply (hperm.map _).nodup_iff.mpr
    rw [List.map_cons, List.nodup_cons]
    refine ⟨?_, h.distinct⟩
    intro hmem
    rcases List.mem_map.mp hmem with ⟨i, hi, heq⟩
    have hused := h.used i hi
    dsimp only at heq
    omega
  · intro i hi
    rcases List.mem_cons.mp (hperm.mem_iff.mp hi) with rfl | hold
    · dsimp only
      omega
    · have hused := h.used i hold
      omega

theorem pending_of_insert {n : Caller} {i : Issued} (hi : i ∈ s.stored)
    (hissued : n.issued = s.issued) (hstored : n.stored = s.stored.erase i) :
    n.pending = s.pending.erase i := by
  rw [pending, pending, hissued, hstored, List.erase_append_right _ (h.not_issued hi)]

theorem step {n : Caller} {e : Event} (hstep : Caller.step s e = some n) : n.Numbered := by
  rcases step_pending hstep with
    ⟨_, t, _, hissued, hstored, hnext⟩ | ⟨i, hi, _, hissued, hstored, hnext⟩ |
      ⟨i, hi, _, hissued, hstored, hnext, _⟩ | ⟨hissued, hstored, hnext⟩
  · exact h.issue hissued hstored hnext
  · have hperm := pending_of_store hi hissued hstored
    exact ⟨(hperm.map _).nodup_iff.mpr h.distinct,
      fun j hj => hnext ▸ h.used j (hperm.mem_iff.mp hj)⟩
  · have herase := h.pending_of_insert hi hissued hstored
    have hsub : n.pending.Sublist s.pending := herase ▸ List.erase_sublist
    exact ⟨h.distinct.sublist (hsub.map _), fun j hj => hnext ▸ h.used j (hsub.subset hj)⟩
  · have hsame : n.pending = s.pending := by rw [pending, pending, hissued, hstored]
    exact ⟨hsame ▸ h.distinct, fun j hj => hnext ▸ h.used j (hsame ▸ hj)⟩

/-- A running `makeCall` goes on until it has entered its call into the table. -/
theorem step_pending {i : Issued} (hi : i ∈ s.pending) {n : Caller} {e : Event}
    (hstep : Caller.step s e = some n) :
    i ∈ n.pending ∨
      (n.entryAt i.token = some i.address ∧ ∀ j ∈ n.pending, j.address ≠ i.address) := by
  rcases Caller.step_pending hstep with
    ⟨_, t, _, hissued, hstored, _⟩ | ⟨j, hj, _, hissued, hstored, _⟩ |
      ⟨j, hj, _, hissued, hstored, _, hentry⟩ | ⟨hissued, hstored, _⟩
  · left
    rcases List.mem_append.mp hi with hi | hi
    · simp [pending, hissued, hi]
    · simp [pending, hstored, hi]
  · exact .inl ((pending_of_store hj hissued hstored).mem_iff.mpr hi)
  · have hnodup : s.pending.Nodup := List.Nodup.of_map _ h.distinct
    rw [h.pending_of_insert hj hissued hstored]
    by_cases hij : i = j
    · subst hij
      refine .inr ⟨hentry, ?_⟩
      intro k hk heq
      rcases hnodup.mem_erase_iff.mp hk with ⟨hne, hk⟩
      exact hne (h.eq_of_address hk hi heq)
    · exact .inl (hnodup.mem_erase_iff.mpr ⟨hij, hi⟩)
  · left
    rwa [pending, hissued, hstored]

end Numbered

end Caller

end LSHelpers
