import LSHelpers.Transition.Run
import Mathlib.Data.List.Infix
import Mathlib.Data.List.Perm.Basic

/-! # What goes through a buffer

A step puts an item at the end of a buffer, takes one out from where it is first found, or
leaves the buffer as it is. Nothing here is about a particular buffer: what went in, what came out
and what is still there add up, and the order is kept exactly as far as the items are
taken from the front.
-/

namespace Transition

variable {σ α β κ : Type*} {step : σ → α → Option σ} {s t u : σ} {a : α} {as : List α}

/-- What the steps of a run record, in order. -/
def history (step : σ → α → Option σ) (f : σ → α → Option β) (s : σ) (as : List α) : List β :=
  (trace step s as).filterMap fun x => f x.1 x.2

@[simp] theorem history_nil (f : σ → α → Option β) (s : σ) : history step f s [] = [] := rfl

theorem history_concat (f : σ → α → Option β) (h : run step s as = some t)
    (hstep : step t a = some u) :
    history step f s (as ++ [a]) = history step f s as ++ (f t a).toList := by
  rw [history, trace_concat h hstep, List.filterMap_append]
  cases hf : f t a <;> simp [hf, history]

theorem history_map (f : σ → α → Option β) (g : β → κ) (s : σ) (as : List α) :
    history step (fun s a => (f s a).map g) s as = (history step f s as).map g := by
  rw [history, history, List.map_filterMap]

/-- Every step goes through the buffer in one of the three ways. -/
structure Buffered (step : σ → α → Option σ) (buffer : σ → List β)
    (enters leaves : σ → α → Option β) : Prop where
  cases : ∀ s a t, step s a = some t →
    (leaves s a = none ∧ buffer t = buffer s ++ (enters s a).toList) ∨
    (enters s a = none ∧ ∃ front b back, leaves s a = some b ∧ buffer s = front ++ b :: back ∧
      b ∉ front ∧ buffer t = front ++ back)

namespace Buffered

variable {buffer : σ → List β} {enters leaves : σ → α → Option β}
  (h : Buffered step buffer enters leaves)
include h

/-- Nothing is lost and nothing is made up. -/
theorem perm (hempty : buffer s = []) (hrun : run step s as = some t) :
    (history step enters s as).Perm (history step leaves s as ++ buffer t) := by
  refine run_history (P := fun as t =>
    (history step enters s as).Perm (history step leaves s as ++ buffer t)) ?_ ?_ hrun
  · simp [hempty]
  · intro as a m n hm hprev hn
    rw [history_concat enters hm hn, history_concat leaves hm hn]
    rcases h.cases m a n hn with ⟨hleaves, hbuffer⟩ |
      ⟨henters, front, b, back, hleaves, hm', hfirst, hn'⟩
    · rw [hleaves, hbuffer]
      simpa [← List.append_assoc] using hprev.append_right _
    · rw [henters, hleaves, hn']
      rw [hm'] at hprev
      have hmove : (front ++ b :: back).Perm (b :: (front ++ back)) := List.perm_middle
      simpa using hprev.trans (hmove.append_left _)

/-- Where the buffer never has two items of one kind, each kind keeps its order. -/
theorem order_of_key [DecidableEq κ] (key : β → κ) (hempty : buffer s = [])
    (hkeys : ∀ pre m, run step s pre = some m → ((buffer m).map key).Nodup)
    (hrun : run step s as = some t) (k : κ) :
    (history step enters s as).filter (fun b => key b = k) =
      (history step leaves s as).filter (fun b => key b = k) ++
        (buffer t).filter (fun b => key b = k) := by
  refine run_history (P := fun as t => (history step enters s as).filter (fun b => key b = k) =
    (history step leaves s as).filter (fun b => key b = k) ++
      (buffer t).filter (fun b => key b = k)) ?_ ?_ hrun
  · simp [hempty]
  · intro as a m n hm hprev hn
    rw [history_concat enters hm hn, history_concat leaves hm hn]
    rcases h.cases m a n hn with ⟨hleaves, hbuffer⟩ |
      ⟨henters, front, b, back, hleaves, hm', hfirst, hn'⟩
    · rw [hleaves, hbuffer]
      simp [hprev]
    · have hnodup := hkeys as m hm
      rw [hm', List.map_append, List.map_cons, List.perm_middle.nodup_iff, List.nodup_cons]
        at hnodup
      rw [henters, hleaves, hn']
      simp only [Option.toList_none, List.append_nil, Option.toList_some, hprev, hm',
        List.filter_append, List.filter_cons, List.filter_nil]
      by_cases hb : key b = k
      · -- the one item of the kind is the one that leaves
        have hnone : ∀ c ∈ front ++ back, key c ≠ k := by
          intro c hc hck
          refine hnodup.1 ?_
          rw [← List.map_append, hb, ← hck]
          exact List.mem_map_of_mem hc
        have hfront : front.filter (fun b => key b = k) = [] := by
          rw [List.filter_eq_nil_iff]
          intro c hc
          simpa using hnone c (List.mem_append_left _ hc)
        have hback : back.filter (fun b => key b = k) = [] := by
          rw [List.filter_eq_nil_iff]
          intro c hc
          simpa using hnone c (List.mem_append_right _ hc)
        simp [hb, hfront, hback]
      · simp [hb]

/-- Items taken from the front come out in the order they went in. -/
theorem in_order (hempty : buffer s = []) (hrun : run step s as = some t)
    (hfront : Meets step (fun m a => ∀ b, leaves m a = some b → (buffer m).head? = some b) s as) :
    history step enters s as = history step leaves s as ++ buffer t := by
  refine run_induction
    (C := fun m a => ∀ b, leaves m a = some b → (buffer m).head? = some b) (P := fun as t =>
    history step enters s as = history step leaves s as ++ buffer t) ?_ ?_ hfront hrun
  · simp [hempty]
  · intro as a m n hm hprev hhead hn
    rw [history_concat enters hm hn, history_concat leaves hm hn]
    rcases h.cases m a n hn with ⟨hleaves, hbuffer⟩ |
      ⟨henters, front, b, back, hleaves, hm', hfirst, hn'⟩
    · rw [hleaves, hbuffer, hprev]
      simp
    · have hb := hhead b hleaves
      rw [hm'] at hb
      rw [henters, hleaves, hn', hprev, hm']
      cases front with
      | nil => simp
      | cons c front =>
          obtain rfl : c = b := by simpa using hb
          exact absurd List.mem_cons_self hfirst

/-- What has come out is the beginning of what has gone in, if and only if every item was
taken from the front. -/
theorem prefix_iff (hempty : buffer s = []) (hrun : run step s as = some t) :
    history step leaves s as <+: history step enters s as ↔
      Meets step (fun m a => ∀ b, leaves m a = some b → (buffer m).head? = some b) s as := by
  constructor
  · refine run_history (P := fun as _ => history step leaves s as <+: history step enters s as →
      Meets step (fun m a => ∀ b, leaves m a = some b → (buffer m).head? = some b) s as) ?_ ?_ hrun
    · intro _
      exact meets_nil
    · intro as a m n hm hprev hn hprefix
      rw [history_concat enters hm hn, history_concat leaves hm hn] at hprefix
      have hlength := (h.perm hempty hm).length_eq
      rw [List.length_append] at hlength
      have hshort : history step leaves s as <+: history step enters s as := by
        have hleft := (List.prefix_append _ _).trans hprefix
        refine List.prefix_of_prefix_length_le hleft (List.prefix_append _ _) ?_
        omega
      have hbefore := hprev hshort
      refine hbefore.append hm ?_
      rw [meets_cons_iff]
      refine ⟨?_, fun _ _ => meets_nil⟩
      intro b hb
      rcases h.cases m a n hn with ⟨hleaves, _⟩ | ⟨henters, _, _, _, _, _, _, _⟩
      · rw [hleaves] at hb
        cases hb
      · rw [henters, hb, h.in_order hempty hm hbefore] at hprefix
        have hhead : [b] <+: buffer m := by simpa [List.prefix_append_right_inj] using hprefix
        rcases hhead with ⟨back, hback⟩
        rw [← hback]
        rfl
  · intro hfront
    rw [h.in_order hempty hrun hfront]
    exact List.prefix_append _ _

end Buffered

end Transition
