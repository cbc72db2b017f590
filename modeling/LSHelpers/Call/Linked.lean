import LSHelpers.Call.Pending

/-!
# The table, the objects and the bus in step

As long as no reply to a one-reply call is handled while its `makeCall` is under way, a
live call with a context belongs to one `makeCall` or to one entry of `mCalls`, and its
object is there. A reply then never finds a freed object.
-/

namespace LSHelpers

namespace Caller

open Transition

/-- A reply to a one-reply call whose `makeCall` is under way. -/
def EarlyReply (s : Caller) (e : Event) : Prop :=
  ∃ i ∈ s.pending, (∃ call, s.heap i.address = some call ∧ call.oneReply = true) ∧
    e = .reply i.token

/-- A live call with a context has its object, under way or in the table. -/
structure Linked (s : Caller) : Prop where
  numbered : s.Numbered
  tokens : (s.live.map BusCall.token).Nodup
  nonzero : ∀ b ∈ s.live, b.token ≠ LSMESSAGE_TOKEN_INVALID
  contexts : ∀ t t' a, ⟨t, some a⟩ ∈ s.live → ⟨t', some a⟩ ∈ s.live → t = t'
  used : ∀ t a, ⟨t, some a⟩ ∈ s.live → a < s.nextAddress
  pending : ∀ i ∈ s.pending, ⟨i.token, some i.address⟩ ∈ s.live ∧ s.entryAt i.token = none
  issued : ∀ i ∈ s.issued, ∃ call, s.heap i.address = some call
  stored : ∀ i ∈ s.stored, ∃ call, s.heap i.address = some call ∧ call.token = i.token
  entry : ∀ t a, s.entryAt t = some a → ⟨t, some a⟩ ∈ s.live ∧
    ∃ call, s.heap a = some call ∧ call.token = t
  owned : ∀ t a, ⟨t, some a⟩ ∈ s.live → ⟨a, t⟩ ∈ s.pending ∨ s.entryAt t = some a
  gone : s.point = none → s.pending = []

theorem linked_init (handle : Option LSHandle) : (init handle).Linked := by
  constructor
  case numbered => exact numbered_init handle
  all_goals simp [init, entryAt, Caller.pending]

namespace Linked

variable {s : Caller} (h : s.Linked)
include h

theorem eq_of_token {b b' : BusCall} (hb : b ∈ s.live) (hb' : b' ∈ s.live)
    (heq : b.token = b'.token) : b = b' :=
  List.inj_on_of_nodup_map h.tokens hb hb' heq

theorem address_of_token {t : LSMessageToken} {a a' : Nat} (ha : ⟨t, some a⟩ ∈ s.live)
    (ha' : ⟨t, some a'⟩ ∈ s.live) : a = a' :=
  Option.some.inj (congrArg BusCall.context (h.eq_of_token ha ha' rfl))

theorem eq_of_pending_token {i j : Issued} (hi : i ∈ s.pending) (hj : j ∈ s.pending)
    (heq : i.token = j.token) : i = j := by
  have hilive := (h.pending i hi).1
  rw [heq] at hilive
  exact h.numbered.eq_of_address hi hj (h.address_of_token hilive (h.pending j hj).1)

/-- What is under way is not in the table. -/
theorem pending_ne_entry {i : Issued} (hi : i ∈ s.pending) {t : LSMessageToken} {a : Nat}
    (ht : s.entryAt t = some a) : i.token ≠ t ∧ i.address ≠ a := by
  rcases h.pending i hi with ⟨hilive, hnone⟩
  have htoken : i.token ≠ t := by
    intro heq
    rw [heq, ht] at hnone
    cases hnone
  refine ⟨htoken, ?_⟩
  intro heq
  rw [heq] at hilive
  exact htoken (h.contexts i.token t a hilive (h.entry t a ht).1)

/-- Only the token of a live call with a context has an entry. -/
theorem entryAt_eq_none {t : LSMessageToken} (ht : ∀ a, ⟨t, some a⟩ ∉ s.live) :
    s.entryAt t = none := by
  cases hentry : s.entryAt t with
  | none => rfl
  | some a => exact absurd (h.entry t a hentry).1 (ht a)

/-- A call without a context belongs to no object. -/
theorem unheard {t : LSMessageToken} (hlive : ⟨t, none⟩ ∈ s.live) :
    (∀ i ∈ s.pending, i.token ≠ t) ∧ s.entryAt t = none := by
  constructor
  · intro i hi heq
    subst heq
    have hsame := h.eq_of_token hlive (h.pending i hi).1 rfl
    cases hsame
  · apply h.entryAt_eq_none
    intro a hmem
    have hsame := h.eq_of_token hlive hmem rfl
    cases hsame

/-- The object of a live call is there. -/
theorem object {t : LSMessageToken} {a : Nat} (hlive : ⟨t, some a⟩ ∈ s.live) :
    ∃ call, s.heap a = some call := by
  rcases h.owned t a hlive with hpending | hentry
  · rcases List.mem_append.mp hpending with hissued | hstored
    · exact h.issued _ hissued
    · rcases h.stored _ hstored with ⟨call, hcall, _⟩
      exact ⟨call, hcall⟩
  · rcases (h.entry t a hentry).2 with ⟨call, hcall, _⟩
    exact ⟨call, hcall⟩

/-! ### What keeps the calls linked -/

/-- Cancelling a call and erasing its entry. -/
theorem close {p : ServicePoint} (hp : s.point = some p) {t : LSMessageToken} {a : Nat}
    (ht : s.entryAt t = some a) : ((s.lsCallCancel t).eraseCall p t).Linked := by
  have hlookup : p.mCalls.lookup t = some a := entryAt_of_point hp t ▸ ht
  have hlive {b : BusCall} : b ∈ ((s.lsCallCancel t).eraseCall p t).live ↔
      b ∈ s.live ∧ b.token ≠ t := mem_live_lsCallCancel
  have hheap {x : Nat} (hx : x ≠ a) : ((s.lsCallCancel t).eraseCall p t).heap x = s.heap x := by
    simp [eraseCall, hlookup, hx, lsCallCancel]
  have hentry (t' : LSMessageToken) (ht' : t' ≠ t) :
      ((s.lsCallCancel t).eraseCall p t).entryAt t' = s.entryAt t' := by
    rw [entryAt_eraseCall, if_neg ht', entryAt_of_point hp]
  constructor
  case numbered => exact ⟨h.numbered.distinct, h.numbered.used⟩
  case tokens => exact h.tokens.sublist (List.filter_sublist.map _)
  case nonzero => exact fun b hb => h.nonzero b (hlive.mp hb).1
  case contexts => exact fun t₁ t₂ x h₁ h₂ => h.contexts t₁ t₂ x (hlive.mp h₁).1 (hlive.mp h₂).1
  case used => exact fun t₁ x h₁ => h.used t₁ x (hlive.mp h₁).1
  case pending =>
    intro i hi
    have htoken := (h.pending_ne_entry hi ht).1
    rw [hentry i.token htoken]
    exact ⟨hlive.mpr ⟨(h.pending i hi).1, htoken⟩, (h.pending i hi).2⟩
  case issued =>
    intro i hi
    rw [hheap (h.pending_ne_entry (List.mem_append_left _ hi) ht).2]
    exact h.issued i hi
  case stored =>
    intro i hi
    rw [hheap (h.pending_ne_entry (List.mem_append_right _ hi) ht).2]
    exact h.stored i hi
  case entry =>
    intro t' x hx
    by_cases ht' : t' = t
    · rw [entryAt_eraseCall, if_pos ht'] at hx
      cases hx
    · rw [hentry t' ht'] at hx
      rcases h.entry t' x hx with ⟨hxlive, hxheap⟩
      have hxa : x ≠ a := by
        intro heq
        subst heq
        exact ht' (h.contexts t' t x hxlive (h.entry t x ht).1)
      rw [hheap hxa]
      exact ⟨hlive.mpr ⟨hxlive, ht'⟩, hxheap⟩
  case owned =>
    intro t' x hx
    rcases hlive.mp hx with ⟨hxlive, ht'⟩
    rw [hentry t' ht']
    exact h.owned t' x hxlive
  case gone =>
    intro hgone
    cases hgone

/-- Cancelling a token that no object has. -/
theorem cancel {t : LSMessageToken} (hpending : ∀ i ∈ s.pending, i.token ≠ t)
    (ht : s.entryAt t = none) : (s.lsCallCancel t).Linked := by
  have hlive {b : BusCall} : b ∈ (s.lsCallCancel t).live ↔ b ∈ s.live ∧ b.token ≠ t :=
    mem_live_lsCallCancel
  constructor
  case numbered => exact ⟨h.numbered.distinct, h.numbered.used⟩
  case tokens => exact h.tokens.sublist (List.filter_sublist.map _)
  case nonzero => exact fun b hb => h.nonzero b (hlive.mp hb).1
  case contexts => exact fun t₁ t₂ x h₁ h₂ => h.contexts t₁ t₂ x (hlive.mp h₁).1 (hlive.mp h₂).1
  case used => exact fun t₁ x h₁ => h.used t₁ x (hlive.mp h₁).1
  case pending =>
    intro i hi
    exact ⟨hlive.mpr ⟨(h.pending i hi).1, hpending i hi⟩, (h.pending i hi).2⟩
  case issued => exact h.issued
  case stored => exact h.stored
  case entry =>
    intro t' x hx
    have ht' : t' ≠ t := by
      intro heq
      rw [heq] at hx
      exact absurd (hx.symm.trans ht) (by simp)
    exact ⟨hlive.mpr ⟨(h.entry t' x hx).1, ht'⟩, (h.entry t' x hx).2⟩
  case owned => exact fun t' x hx => h.owned t' x (hlive.mp hx).1
  case gone => exact h.gone

/-- A fresh token for a new call, with or without an object. -/
theorem tokens_concat {t : LSMessageToken} (ht : s.freshToken t = true) (context : Option Nat) :
    ((s.live ++ [(⟨t, context⟩ : BusCall)]).map BusCall.token).Nodup := by
  rw [List.map_append]
  refine h.tokens.append (List.nodup_singleton _) ?_
  simpa using (freshToken_iff.mp ht).2

theorem nonzero_concat {t : LSMessageToken} (ht : s.freshToken t = true) (context : Option Nat) :
    ∀ b ∈ s.live ++ [(⟨t, context⟩ : BusCall)], b.token ≠ LSMESSAGE_TOKEN_INVALID := by
  intro b hb
  rcases List.mem_append.mp hb with hold | hnew
  · exact h.nonzero b hold
  · rw [List.mem_singleton] at hnew
    exact hnew ▸ (freshToken_iff.mp ht).1

theorem fireAndForget {t : LSMessageToken} (ht : s.freshToken t = true) :
    (s.fireAndForget t).Linked := by
  have hlive {t' : LSMessageToken} {a : Nat} :
      ⟨t', some a⟩ ∈ (s.fireAndForget t).live ↔ ⟨t', some a⟩ ∈ s.live := by
    simp [Caller.fireAndForget]
  constructor
  case numbered => exact ⟨h.numbered.distinct, h.numbered.used⟩
  case tokens => exact h.tokens_concat ht none
  case nonzero => exact h.nonzero_concat ht none
  case contexts => exact fun t₁ t₂ x h₁ h₂ => h.contexts t₁ t₂ x (hlive.mp h₁) (hlive.mp h₂)
  case used => exact fun t₁ x h₁ => h.used t₁ x (hlive.mp h₁)
  case pending => exact fun i hi => ⟨hlive.mpr (h.pending i hi).1, (h.pending i hi).2⟩
  case issued => exact h.issued
  case stored => exact h.stored
  case entry => exact fun t' x hx => ⟨hlive.mpr (h.entry t' x hx).1, (h.entry t' x hx).2⟩
  case owned => exact fun t' x hx => h.owned t' x (hlive.mp hx)
  case gone => exact h.gone

theorem issue {p : ServicePoint} (hp : s.point = some p) (oneReply : Bool) {t : LSMessageToken}
    (ht : s.freshToken t = true) : (s.issue oneReply t).Linked := by
  have hlive {t' : LSMessageToken} {a : Nat} : ⟨t', some a⟩ ∈ (s.issue oneReply t).live ↔
      ⟨t', some a⟩ ∈ s.live ∨ (t' = t ∧ a = s.nextAddress) := by
    simp [Caller.issue]
  have hpending {i : Issued} : i ∈ (s.issue oneReply t).pending ↔
      i ∈ s.pending ∨ i = ⟨s.nextAddress, t⟩ := by
    simp only [Caller.pending, Caller.issue, List.mem_append, List.mem_singleton]
    tauto
  have hheap {x : Nat} (hx : x ≠ s.nextAddress) : (s.issue oneReply t).heap x = s.heap x := by
    simp [Caller.issue, hx]
  have hold {t' : LSMessageToken} {x : Nat} (hx : ⟨t', some x⟩ ∈ s.live) : x ≠ s.nextAddress :=
    Nat.ne_of_lt (h.used t' x hx)
  have hentry (t' : LSMessageToken) : (s.issue oneReply t).entryAt t' = s.entryAt t' := rfl
  constructor
  case numbered => exact h.numbered.issue rfl rfl rfl
  case tokens => exact h.tokens_concat ht _
  case nonzero => exact h.nonzero_concat ht _
  case contexts =>
    intro t₁ t₂ x h₁ h₂
    rcases hlive.mp h₁ with hold₁ | ⟨rfl, hx₁⟩
    · rcases hlive.mp h₂ with hold₂ | ⟨rfl, hx₂⟩
      · exact h.contexts t₁ t₂ x hold₁ hold₂
      · exact absurd hx₂ (hold hold₁)
    · rcases hlive.mp h₂ with hold₂ | ⟨rfl, hx₂⟩
      · exact absurd hx₁ (hold hold₂)
      · rfl
  case used =>
    intro t₁ x h₁
    rcases hlive.mp h₁ with h₁ | ⟨_, rfl⟩
    · exact Nat.lt_succ_of_lt (h.used t₁ x h₁)
    · exact Nat.lt_succ_self _
  case pending =>
    intro i hi
    rw [hentry]
    rcases hpending.mp hi with hi | rfl
    · exact ⟨hlive.mpr (.inl (h.pending i hi).1), (h.pending i hi).2⟩
    · exact ⟨hlive.mpr (.inr ⟨rfl, rfl⟩),
        h.entryAt_eq_none fun a hmem => (freshToken_iff.mp ht).2 _ hmem rfl⟩
  case issued =>
    intro i hi
    rcases List.mem_append.mp hi with hi | hi
    · rw [hheap (hold (h.pending i (List.mem_append_left _ hi)).1)]
      exact h.issued i hi
    · rw [List.mem_singleton] at hi
      subst hi
      exact ⟨⟨0, oneReply⟩, by simp [Caller.issue]⟩
  case stored =>
    intro i hi
    rw [hheap (hold (h.pending i (List.mem_append_right _ hi)).1)]
    exact h.stored i hi
  case entry =>
    intro t' x hx
    rcases h.entry t' x hx with ⟨hxlive, hxheap⟩
    rw [hheap (hold hxlive)]
    exact ⟨hlive.mpr (.inl hxlive), hxheap⟩
  case owned =>
    intro t' x hx
    rcases hlive.mp hx with hx | ⟨rfl, rfl⟩
    · exact (h.owned t' x hx).imp_left fun hi => hpending.mpr (.inl hi)
    · exact .inl (hpending.mpr (.inr rfl))
  case gone =>
    intro hgone
    exact absurd (hp.symm.trans hgone) (by simp)

/-- Storing the token changes the object, and nothing the bus or the table knows. -/
theorem store {i : Issued} (hi : i ∈ s.issued) : (s.store i).Linked := by
  rcases h.issued i hi with ⟨call, hcall⟩
  have hperm : (s.store i).pending.Perm s.pending := pending_of_store hi rfl rfl
  have hself : (s.store i).heap i.address = some { call with token := i.token } := by
    simp [Caller.store, hcall]
  have hheap {x : Nat} (hx : x ≠ i.address) : (s.store i).heap x = s.heap x := by
    simp [Caller.store, hx]
  constructor
  case numbered =>
    exact ⟨(hperm.map _).nodup_iff.mpr h.numbered.distinct,
      fun j hj => h.numbered.used j (hperm.mem_iff.mp hj)⟩
  case tokens => exact h.tokens
  case nonzero => exact h.nonzero
  case contexts => exact h.contexts
  case used => exact h.used
  case pending => exact fun j hj => h.pending j (hperm.mem_iff.mp hj)
  case issued =>
    intro j hj
    by_cases hij : j.address = i.address
    · rw [hij, hself]
      exact ⟨_, rfl⟩
    · rw [hheap hij]
      exact h.issued j (List.mem_of_mem_erase hj)
  case stored =>
    intro j hj
    rcases List.mem_append.mp hj with hj | hj
    · have hij : j.address ≠ i.address := by
        intro heq
        have hsame := h.numbered.eq_of_address (List.mem_append_right _ hj)
          (List.mem_append_left _ hi) heq
        exact h.numbered.not_issued hj (hsame ▸ hi)
      rw [hheap hij]
      exact h.stored j hj
    · rw [List.mem_singleton] at hj
      subst hj
      exact ⟨_, hself, rfl⟩
  case entry =>
    intro t x hx
    rw [hheap (h.pending_ne_entry (List.mem_append_left _ hi) hx).2.symm]
    exact h.entry t x hx
  case owned => exact fun t x hx => (h.owned t x hx).imp_left hperm.mem_iff.mpr
  case gone =>
    intro hgone
    have hnone := h.gone hgone
    rw [Caller.pending, List.append_eq_nil_iff] at hnone
    rw [hnone.1] at hi
    cases hi

/-- The insertion moves the call from `makeCall` into the table. -/
theorem insert {p : ServicePoint} (hp : s.point = some p) {i : Issued} (hi : i ∈ s.stored) :
    (s.insert p i).Linked := by
  have hmem : i ∈ s.pending := List.mem_append_right _ hi
  rcases h.pending i hmem with ⟨hilive, hnone⟩
  have hlookup : p.mCalls.lookup i.token = none := entryAt_of_point hp i.token ▸ hnone
  have hheap : (s.insert p i).heap = s.heap := by
    simp [Caller.insert, eraseCall, hlookup]
  have herase : (s.insert p i).pending = s.pending.erase i :=
    h.numbered.pending_of_insert hi rfl rfl
  have hpending {j : Issued} : j ∈ (s.insert p i).pending ↔ j ≠ i ∧ j ∈ s.pending := by
    rw [herase]
    exact (List.Nodup.of_map _ h.numbered.distinct).mem_erase_iff
  have hentry (t : LSMessageToken) (ht : t ≠ i.token) : (s.insert p i).entryAt t = s.entryAt t := by
    rw [entryAt_insert, if_neg ht, entryAt_of_point hp]
  constructor
  case numbered =>
    have hsub : (s.insert p i).pending.Sublist s.pending := herase ▸ List.erase_sublist
    exact ⟨h.numbered.distinct.sublist (hsub.map _), fun j hj => h.numbered.used j (hsub.subset hj)⟩
  case tokens => exact h.tokens
  case nonzero => exact h.nonzero
  case contexts => exact h.contexts
  case used => exact h.used
  case pending =>
    intro j hj
    rcases hpending.mp hj with ⟨hne, hj⟩
    have htoken : j.token ≠ i.token := fun heq => hne (h.eq_of_pending_token hj hmem heq)
    rw [hentry j.token htoken]
    exact h.pending j hj
  case issued =>
    rw [hheap]
    exact h.issued
  case stored =>
    intro j hj
    rw [hheap]
    exact h.stored j (List.mem_of_mem_erase hj)
  case entry =>
    intro t x hx
    rw [hheap]
    by_cases ht : t = i.token
    · rw [entryAt_insert, if_pos ht] at hx
      obtain rfl := Option.some.inj hx
      exact ⟨ht ▸ hilive, ht ▸ h.stored i hi⟩
    · rw [hentry t ht] at hx
      exact h.entry t x hx
  case owned =>
    intro t x hx
    by_cases ht : t = i.token
    · subst ht
      right
      rw [entryAt_insert, if_pos rfl, h.address_of_token hx hilive]
    · rw [hentry t ht, hpending]
      refine (h.owned t x hx).imp_left fun hj => ⟨?_, hj⟩
      intro heq
      exact ht (congrArg Issued.token heq)
  case gone =>
    intro hgone
    cases hgone

theorem destroy {p : ServicePoint} (hp : s.point = some p) (hnone : s.pending = []) :
    (s.destroy p).Linked ∧ ∀ t a, ⟨t, some a⟩ ∉ (s.destroy p).live := by
  have hpending : (s.destroy p).pending = [] := hnone
  rcases List.append_eq_nil_iff.mp hpending with ⟨hissued, hstored⟩
  have hdead (t : LSMessageToken) (a : Nat) : ⟨t, some a⟩ ∉ (s.destroy p).live := by
    intro hmem
    rcases List.mem_filter.mp hmem with ⟨hlive, hkeys⟩
    rcases h.owned t a hlive with hmem | hentry
    · simp [hnone] at hmem
    · rw [entryAt_of_point hp] at hentry
      have hkey : t ∈ p.mCalls := AList.lookup_isSome.mp (by simp [hentry])
      simp [AList.mem_keys.mp hkey] at hkeys
  refine ⟨?_, hdead⟩
  constructor
  case numbered => exact ⟨h.numbered.distinct, h.numbered.used⟩
  case tokens => exact h.tokens.sublist (List.filter_sublist.map _)
  case nonzero => exact fun b hb => h.nonzero b (List.mem_filter.mp hb).1
  case contexts => exact fun t _ x hx _ => absurd hx (hdead t x)
  case used => exact fun t x hx => absurd hx (hdead t x)
  case pending => simp [hpending]
  case issued => simp [hissued]
  case stored => simp [hstored]
  case entry => simp [Caller.destroy, entryAt]
  case owned => exact fun t x hx => absurd hx (hdead t x)
  case gone => exact fun _ => hpending

theorem startHandler (a : Nat) (oneReply : Bool) : (s.startHandler a oneReply).Linked :=
  ⟨⟨h.numbered.distinct, h.numbered.used⟩, h.tokens, h.nonzero, h.contexts, h.used, h.pending,
    h.issued, h.stored, h.entry, h.owned, h.gone⟩

end Linked

/-! ## A step -/

/-- What a step from a linked state does: every event with the ways it can go. -/
inductive Stepped (s : Caller) : Event → Caller → Prop
  | issue {p : ServicePoint} {oneReply : Bool} {t : LSMessageToken} (hp : s.point = some p)
      (hfresh : s.freshToken t = true) : Stepped s (.issue oneReply t) (s.issue oneReply t)
  | store {i : Issued} (hi : i ∈ s.issued) : Stepped s (.store i.address) (s.store i)
  | insert {p : ServicePoint} {i : Issued} (hp : s.point = some p) (hi : i ∈ s.stored) :
      Stepped s (.insert i.address) (s.insert p i)
  | fireAndForget {t : LSMessageToken} (hfresh : s.freshToken t = true) :
      Stepped s (.fireAndForget t) (s.fireAndForget t)
  | replyUnheard {t : LSMessageToken} (hlive : ⟨t, none⟩ ∈ s.live) :
      Stepped s (.reply t) (s.lsCallCancel t)
  | replyMore {t : LSMessageToken} {a : Nat} {call : Call} (hlive : ⟨t, some a⟩ ∈ s.live)
      (hcall : s.heap a = some call) (hmore : call.oneReply = false) :
      Stepped s (.reply t) (s.startHandler a false)
  | replyLast {p : ServicePoint} {t : LSMessageToken} {a : Nat} {call : Call}
      (hp : s.point = some p) (hentry : s.entryAt t = some a) (hcall : s.heap a = some call)
      (hone : call.oneReply = true) :
      Stepped s (.reply t) (((s.lsCallCancel t).eraseCall p t).startHandler a true)
  | cancelUnknown {t : LSMessageToken} (hpending : ∀ i ∈ s.pending, i.token ≠ t)
      (hentry : s.entryAt t = none) : Stepped s (.cancelCall t) (s.lsCallCancel t)
  | cancelKnown {p : ServicePoint} {t : LSMessageToken} {a : Nat} (hp : s.point = some p)
      (hentry : s.entryAt t = some a) :
      Stepped s (.cancelCall t) ((s.lsCallCancel t).eraseCall p t)
  | destroy {p : ServicePoint} (hp : s.point = some p) (hnone : s.pending = []) :
      Stepped s .destroy (s.destroy p)

namespace Linked

variable {s : Caller} (h : s.Linked)
include h

theorem stepped_of_reply {t : LSMessageToken} {n : Caller} (hearly : ¬s.EarlyReply (.reply t))
    (hreply : s.reply t = some n) : Stepped s (.reply t) n := by
  rcases reply_cases hreply with
    ⟨hlive, rfl⟩ | ⟨a, call, hlive, hcall, hmore, rfl⟩ | ⟨p, a, call, hp, hlive, hcall, hone, rfl⟩
  · exact .replyUnheard hlive
  · exact .replyMore hlive hcall hmore
  · rcases h.owned t a hlive with hpending | hentry
    · exact absurd ⟨_, hpending, ⟨call, hcall, hone⟩, rfl⟩ hearly
    · rcases (h.entry t a hentry).2 with ⟨call', hcall', htoken⟩
      obtain rfl : call = call' := Option.some.inj (hcall.symm.trans hcall')
      rw [htoken]
      exact .replyLast hp hentry hcall hone

theorem stepped_of_cancelCall {p : ServicePoint} (hp : s.point = some p) {t : LSMessageToken}
    (hpending : ∀ i ∈ s.pending, i.token ≠ t) {n : Caller} (hcancel : s.cancelCall p t = some n) :
    Stepped s (.cancelCall t) n := by
  rcases cancelCall_cases hcancel with ⟨hnone, rfl⟩ | ⟨a, call, hlookup, hcall, rfl⟩
  · rw [← entryAt_of_point hp] at hnone
    exact .cancelUnknown hpending hnone
  · rw [← entryAt_of_point hp] at hlookup
    rcases (h.entry t a hlookup).2 with ⟨call', hcall', htoken⟩
    obtain rfl : call = call' := Option.some.inj (hcall.symm.trans hcall')
    rw [htoken]
    exact .cancelKnown hp hlookup

theorem stepped {n : Caller} {e : Event} (hearly : ¬s.EarlyReply e)
    (hstep : Caller.step s e = some n) : Stepped s e n := by
  cases e with
  | issue oneReply token =>
      rcases withHandle_ite_iff.mp hstep with ⟨p, hp, _, hfresh, rfl⟩
      exact .issue hp hfresh
  | store address =>
      rcases withHandle_iff.mp hstep with ⟨p, _, _, hmap⟩
      rcases Option.map_eq_some_iff.mp hmap with ⟨i, hfind, rfl⟩
      obtain rfl : i.address = address := by simpa using List.find?_some hfind
      exact .store (List.mem_of_find?_eq_some hfind)
  | insert address =>
      rcases withHandle_iff.mp hstep with ⟨p, hp, _, hmap⟩
      rcases Option.map_eq_some_iff.mp hmap with ⟨i, hfind, rfl⟩
      obtain rfl : i.address = address := by simpa using List.find?_some hfind
      exact .insert hp (List.mem_of_find?_eq_some hfind)
  | fireAndForget token =>
      rcases withHandle_ite_iff.mp hstep with ⟨p, _, _, hfresh, rfl⟩
      exact .fireAndForget hfresh
  | reply token => exact h.stepped_of_reply hearly hstep
  | cancelCall token =>
      rcases withHandle_iff.mp hstep with ⟨p, hp, _, hite⟩
      split at hite
      · rename_i hpending
        exact h.stepped_of_cancelCall hp (by simpa using hpending) hite
      · cases hite
  | destroy =>
      rcases Option.bind_eq_some_iff.mp hstep with ⟨p, hp, hite⟩
      split at hite
      · rename_i hnone
        obtain rfl := Option.some.inj hite
        exact .destroy hp (List.isEmpty_iff.mp hnone)
      · cases hite

theorem step {n : Caller} {e : Event} (hearly : ¬s.EarlyReply e)
    (hstep : Caller.step s e = some n) : n.Linked := by
  cases h.stepped hearly hstep with
  | issue hp hfresh => exact h.issue hp _ hfresh
  | store hi => exact h.store hi
  | insert hp hi => exact h.insert hp hi
  | fireAndForget hfresh => exact h.fireAndForget hfresh
  | replyUnheard hlive => exact h.cancel (h.unheard hlive).1 (h.unheard hlive).2
  | replyMore _ _ _ => exact h.startHandler _ false
  | replyLast hp hentry _ _ => exact (h.close hp hentry).startHandler _ true
  | cancelUnknown hpending hentry => exact h.cancel hpending hentry
  | cancelKnown hp hentry => exact h.close hp hentry
  | destroy hp hnone => exact (h.destroy hp hnone).1

/-- A call comes to life with an address that was never used. -/
theorem step_live {n : Caller} {e : Event} (hearly : ¬s.EarlyReply e)
    (hstep : Caller.step s e = some n) :
    s.nextAddress ≤ n.nextAddress ∧ ∀ t a, ⟨t, some a⟩ ∈ n.live → a < s.nextAddress →
      ⟨t, some a⟩ ∈ s.live := by
  have hcancel (token t : LSMessageToken) (a : Nat)
      (hmem : ⟨t, some a⟩ ∈ (s.lsCallCancel token).live) : ⟨t, some a⟩ ∈ s.live :=
    (mem_live_lsCallCancel.mp hmem).1
  cases h.stepped hearly hstep with
  | issue _ _ =>
      refine ⟨Nat.le_succ _, ?_⟩
      intro t a hmem hold
      rcases List.mem_append.mp hmem with hmem | hnew
      · exact hmem
      · rw [List.mem_singleton] at hnew
        have haddress : a = s.nextAddress := Option.some.inj (congrArg BusCall.context hnew)
        omega
  | fireAndForget _ =>
      exact ⟨le_rfl, fun t a hmem _ => by simpa [Caller.fireAndForget] using hmem⟩
  | destroy _ _ => exact ⟨le_rfl, fun _ _ hmem _ => (List.mem_filter.mp hmem).1⟩
  | replyUnheard _ | replyLast _ _ _ _ | cancelUnknown _ _ | cancelKnown _ _ =>
      exact ⟨le_rfl, fun t a hmem _ => hcancel _ t a hmem⟩
  | store _ | insert _ _ | replyMore _ _ _ => exact ⟨le_rfl, fun _ _ hmem _ => hmem⟩

/-- A reply to a live call never finds a freed object. -/
theorem reply_enabled {b : BusCall} (hb : b ∈ s.live) : ∃ n, s.reply b.token = some n := by
  have hfind : s.live.find? (fun x => x.token == b.token) = some b := by
    cases hx : s.live.find? fun x => x.token == b.token with
    | none => simpa using List.find?_eq_none.mp hx b hb
    | some x =>
        have htoken : x.token = b.token := by simpa using List.find?_some hx
        rw [h.eq_of_token (List.mem_of_find?_eq_some hx) hb htoken]
  unfold reply
  rw [hfind]
  rcases b with ⟨t, context⟩
  cases context with
  | none => exact ⟨_, rfl⟩
  | some a =>
      rcases h.object hb with ⟨call, hcall⟩
      have hpoint : ∃ p, s.point = some p := by
        cases hp : s.point with
        | some p => exact ⟨p, rfl⟩
        | none =>
            rcases h.owned t a hb with hpending | hentry
            · simp [h.gone hp] at hpending
            · simp [entryAt, hp] at hentry
      rcases hpoint with ⟨p, hp⟩
      cases hone : call.oneReply <;>
        simp [callResponseHandler, hcall, hone, hp, cancelCallObject]

end Linked

theorem linked_of_run {s n : Caller} {events : List Event} (hs : s.Linked)
    (hmeets : Meets step (fun m e => ¬m.EarlyReply e) s events)
    (h : run step s events = some n) : n.Linked :=
  run_induction (P := fun _ m => m.Linked) hs
    (fun _ _ _ _ _ hm hearly hn => hm.step hearly hn) hmeets h

end Caller

end LSHelpers
