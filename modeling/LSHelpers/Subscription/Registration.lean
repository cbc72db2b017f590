import Mathlib.Data.List.Nodup
import LSHelpers.Subscription.Point
import LSHelpers.Transition.Run

/-!
# Notifications and the making of an item

The status watch of an item is live before the item is in the list, and a
notification that is handled in between finds nothing to erase. An item leaves the
list for good exactly when a notification finds it there.
-/

namespace LSHelpers

/-- Erasing the first element that is looked for removes a given one, if it is that one. -/
theorem not_mem_eraseP_iff {α : Type*} {q : α → Bool} {l : List α} {x : α} (hl : l.Nodup)
    (hx : x ∈ l) : x ∉ l.eraseP q ↔ l.find? q = some x := by
  induction l with
  | nil => cases hx
  | cons y l ih =>
      rw [List.nodup_cons] at hl
      by_cases hy : q y = true
      · rw [List.eraseP_cons_of_pos hy, List.find?_cons_of_pos hy]
        constructor
        · intro hgone
          exact congrArg some ((List.mem_cons.mp hx).resolve_right hgone).symm
        · intro hfirst
          exact Option.some.inj hfirst ▸ hl.1
      · rw [List.eraseP_cons_of_neg hy, List.find?_cons_of_neg hy]
        rcases List.mem_cons.mp hx with rfl | hmem
        · constructor
          · intro hgone
            exact absurd (List.mem_cons_self ..) hgone
          · intro hlater
            exact absurd (List.mem_of_find?_eq_some hlater) hl.1
        · rw [List.mem_cons, not_or, ih hl.2 hmem]
          constructor
          · exact fun h => h.2
          · intro h
            exact ⟨fun heq => hl.1 (heq ▸ hmem), h⟩

/-- In a list of distinct keys a key finds its own element. -/
theorem find?_key_iff {α κ : Type*} [DecidableEq κ] {key : α → κ} {l : List α} {x : α} {k : κ}
    (hl : (l.map key).Nodup) (hx : x ∈ l) :
    l.find? (fun y => key y == k) = some x ↔ k = key x := by
  constructor
  · intro h
    have := List.find?_some h
    exact (beq_iff_eq.mp this).symm
  · intro heq
    subst heq
    cases hfind : l.find? fun y => key y == key x with
    | none => simpa using List.find?_eq_none.mp hfind x hx
    | some y =>
        have hkey : key y = key x := by simpa using List.find?_some hfind
        rw [List.inj_on_of_nodup_map hl (List.mem_of_find?_eq_some hfind) hx hkey]

namespace Publisher

open Transition

/-! ## Addresses -/

/-- Every item has an address of its own, handed out before. -/
structure Addressed (s : Publisher) : Prop where
  distinct : ((s.listed ++ s.adding).map SubscriptionItem.address).Nodup
  used : ∀ item ∈ s.listed ++ s.adding, item.address < s.nextAddress

namespace Addressed

variable {s : Publisher} (h : s.Addressed)
include h

theorem listed_nodup : (s.listed.map SubscriptionItem.address).Nodup := by
  have hall := h.distinct
  rw [List.map_append] at hall
  exact hall.sublist (List.sublist_append_left ..)

theorem adding_nodup : (s.adding.map SubscriptionItem.address).Nodup := by
  have hall := h.distinct
  rw [List.map_append] at hall
  exact hall.sublist (List.sublist_append_right ..)

/-- A listed item is not about to be inserted. -/
theorem not_adding {item : SubscriptionItem} (hitem : item ∈ s.listed) : item ∉ s.adding := by
  intro hadding
  have hall := h.distinct
  rw [List.map_append] at hall
  have hdisjoint := (List.nodup_append.mp hall).2.2
  exact hdisjoint _ (List.mem_map_of_mem hitem) _ (List.mem_map_of_mem hadding) rfl

end Addressed

theorem addressed_init (service : Option LSHandle) : (init service).Addressed where
  distinct := List.nodup_nil
  used := by simp [init, setServiceHandle, listed]

theorem Addressed.step {s t : Publisher} {e : Event} (h : s.Addressed)
    (hstep : Publisher.step s e = some t) : t.Addressed := by
  rcases h with ⟨hdistinct, hused⟩
  rcases step_items hstep with
    ⟨message, item, rfl, _, haddress, hlisted, hadding, hnext⟩ |
      ⟨item, hitem, rfl, hlisted, hadding, hnext⟩ | ⟨_, hlisted, hadding, hnext⟩
  · have hitems : t.listed ++ t.adding = s.listed ++ s.adding ++ [item] := by
      rw [hlisted, hadding, List.append_assoc]
    have hfresh : item.address ∉ (s.listed ++ s.adding).map SubscriptionItem.address := by
      intro hmem
      rcases List.mem_map.mp hmem with ⟨other, hother, heq⟩
      have := hused other hother
      omega
    constructor
    · rw [hitems, List.map_append]
      exact hdistinct.append (List.nodup_singleton _) (by simpa using hfresh)
    · intro other hother
      rw [hitems, List.mem_append, List.mem_singleton] at hother
      rcases hother with hold | rfl
      · exact hnext ▸ Nat.lt_succ_of_lt (hused other hold)
      · omega
  · have hperm : (t.listed ++ t.adding).Perm (s.listed ++ s.adding) := by
      rw [hlisted, hadding, List.append_assoc]
      exact List.Perm.append_left _ (List.perm_cons_erase hitem).symm
    constructor
    · exact (hperm.map _).nodup_iff.mpr hdistinct
    · intro other hother
      exact hnext ▸ hused other (hperm.mem_iff.mp hother)
  · have hsub : (t.listed ++ t.adding).Sublist (s.listed ++ s.adding) := by
      rw [hlisted, hadding]
      exact (e.keep_sublist s.listed).append_right s.adding
    constructor
    · exact hdistinct.sublist (hsub.map _)
    · intro other hother
      exact hnext ▸ hused other (hsub.subset hother)

theorem addressed_of_run {s t : Publisher} {events : List Event}
    (h : run Publisher.step s events = some t)
    (hs : s.Addressed) : t.Addressed :=
  run_invariant (fun _ _ _ hm hn => hm.step hn) h hs

/-! ## The life of an item -/

/-- The notification finds the item: it is the sender of the item that is down, or the
item is the first in the list with the cancelled token. -/
def FindsItem (s : Publisher) (item : SubscriptionItem) : Event → Prop
  | .subscriberStatus address isUp => isUp = false ∧ address = item.address
  | .subscriberCancel _ uniqueToken =>
      s.listed.find? (fun x => uniqueToken == x.message.uniqueToken) = some item
  | _ => False

/-- An item that is out of the list and cannot come back. -/
structure Gone (item : SubscriptionItem) (s : Publisher) : Prop where
  unlisted : item ∉ s.listed
  added : item ∉ s.adding
  used : item.address < s.nextAddress

theorem Gone.step {item : SubscriptionItem} {s t : Publisher} {e : Event} (h : Gone item s)
    (hstep : Publisher.step s e = some t) : Gone item t := by
  rcases h with ⟨hunlisted, hadded, hused⟩
  rcases step_items hstep with
    ⟨message, new, rfl, _, haddress, hlisted, hadding, hnext⟩ |
      ⟨new, hnew, rfl, hlisted, hadding, hnext⟩ | ⟨_, hlisted, hadding, hnext⟩
  · refine ⟨hlisted ▸ hunlisted, ?_, by omega⟩
    rw [hadding, List.mem_append, List.mem_singleton, not_or]
    refine ⟨hadded, ?_⟩
    intro heq
    subst heq
    omega
  · refine ⟨?_, ?_, by omega⟩
    · rw [hlisted, List.mem_append, List.mem_singleton, not_or]
      refine ⟨hunlisted, ?_⟩
      intro heq
      subst heq
      exact hadded hnew
    · rw [hadding]
      exact fun hmem => hadded (List.mem_of_mem_erase hmem)
  · refine ⟨?_, hadding ▸ hadded, by omega⟩
    rw [hlisted]
    exact fun hmem => hunlisted ((e.keep_sublist s.listed).subset hmem)

/-- The second half of `addSubscription` puts the item into the list. -/
theorem inserted_listed {item : SubscriptionItem} {s t : Publisher} (hs : s.Addressed)
    (hitem : item ∈ s.adding) (hstep : Publisher.step s (.insertItem item.address) = some t) :
    item ∈ t.listed := by
  rcases step_cases hstep with ⟨_, _, _, he, _⟩ | ⟨_, _, p, hp, rfl⟩
  · cases he
  · have hfind := (find?_key_iff hs.adding_nodup hitem).mpr rfl
    simp [effect, insertItem, hfind, listed]

/-- What becomes of a listed item in one step while the object lives. -/
theorem listed_step {item : SubscriptionItem} {s t : Publisher} {e : Event} (hs : s.Addressed)
    (hitem : item ∈ s.listed) (hstep : Publisher.step s e = some t) (ht : t.point ≠ none) :
    (item ∈ t.listed ∧ ¬s.FindsItem item e) ∨ (Gone item t ∧ s.FindsItem item e) := by
  have haddresses := hs.listed_nodup
  have hnodup : s.listed.Nodup := List.Nodup.of_map _ haddresses
  have hused := hs.used item (List.mem_append_left _ hitem)
  rcases step_items hstep with
    ⟨message, new, rfl, _, haddress, hlisted, hadding, hnext⟩ |
      ⟨new, hnew, rfl, hlisted, hadding, hnext⟩ | ⟨hadded, hlisted, hadding, hnext⟩
  · exact .inl ⟨hlisted ▸ hitem, id⟩
  · exact .inl ⟨hlisted ▸ List.mem_append_left _ hitem, id⟩
  · have hfind (which : SubscriptionItem → Bool) (hkeep : e.keep s.listed = s.listed.eraseP which) :
        (item ∈ t.listed ∧ ¬s.listed.find? which = some item) ∨
          (Gone item t ∧ s.listed.find? which = some item) := by
      rw [hkeep] at hlisted
      by_cases hfirst : s.listed.find? which = some item
      · have hgone := (not_mem_eraseP_iff hnodup hitem).mpr hfirst
        exact .inr ⟨⟨hlisted ▸ hgone, hadding ▸ hs.not_adding hitem, by omega⟩, hfirst⟩
      · refine .inl ⟨hlisted ▸ ?_, hfirst⟩
        by_contra hgone
        exact hfirst ((not_mem_eraseP_iff hnodup hitem).mp hgone)
    cases e with
    | subscriberCancel sh uniqueToken => exact hfind _ rfl
    | subscriberStatus address isUp =>
        cases isUp with
        | true => exact .inl ⟨hlisted ▸ hitem, by simp [FindsItem]⟩
        | false =>
            simpa only [FindsItem, true_and, find?_key_iff haddresses hitem] using hfind _ rfl
    | destroy =>
        rcases step_cases hstep with ⟨_, _, _, he, _⟩ | ⟨_, _, p, _, rfl⟩
        · cases he
        · exact absurd rfl ht
    | _ => exact .inl ⟨hlisted ▸ hitem, id⟩

/-- A destroyed object stays destroyed. -/
theorem point_none_of_step {s t : Publisher} {e : Event} (hs : s.point = none)
    (hstep : Publisher.step s e = some t) : t.point = none := by
  rcases step_cases hstep with ⟨_, _, _, _, _, rfl⟩ | ⟨_, _, p, hp, _⟩
  · exact hs
  · rw [hs] at hp
    cases hp

/-- From its insertion on, an item is out of the list for good exactly when a notification
of its sender or its token has found it there; what came before its insertion is lost. -/
theorem unlisted_iff_found (service : Option LSHandle) (item : SubscriptionItem)
    (pre post : List Event) (q n s : Publisher)
    (hpre : run Publisher.step (init service) pre = some q) (hitem : item ∈ q.adding)
    (hinsert : Publisher.step q (.insertItem item.address) = some n)
    (hpost : run Publisher.step n post = some s) (halive : s.point ≠ none) :
    (∀ more t, run Publisher.step s more = some t → item ∉ t.listed) ↔
      ∃ x ∈ trace Publisher.step n post, x.1.FindsItem item x.2 := by
  have hq := addressed_of_run hpre (addressed_init service)
  have hlisted : item ∈ n.listed := inserted_listed hq hitem hinsert
  have hinv : s.point = none ∨
      (s.Addressed ∧ item ∈ s.listed ∧ ¬∃ x ∈ trace Publisher.step n post, x.1.FindsItem item x.2) ∨
      (Gone item s ∧ ∃ x ∈ trace Publisher.step n post, x.1.FindsItem item x.2) := by
    refine run_history (P := fun es m => m.point = none ∨
      (m.Addressed ∧ item ∈ m.listed ∧ ¬∃ x ∈ trace Publisher.step n es, x.1.FindsItem item x.2) ∨
      (Gone item m ∧ ∃ x ∈ trace Publisher.step n es, x.1.FindsItem item x.2)) ?_ ?_ hpost
    · exact .inr (.inl ⟨hq.step hinsert, hlisted, by simp⟩)
    · intro es e m k hrun hm hstep
      rw [trace_concat hrun hstep]
      simp only [List.mem_append, List.mem_singleton, or_and_right, exists_or, exists_eq_left]
      rcases hm with hm | ⟨haddressed, hmem, hnot⟩ | ⟨hgone, hfound⟩
      · exact .inl (point_none_of_step hm hstep)
      · by_cases hk : k.point = none
        · exact .inl hk
        · rcases listed_step haddressed hmem hstep hk with ⟨hstay, hmiss⟩ | ⟨hgone, hfinds⟩
          · exact .inr (.inl ⟨haddressed.step hstep, hstay, not_or.mpr ⟨hnot, hmiss⟩⟩)
          · exact .inr (.inr ⟨hgone, .inr hfinds⟩)
      · exact .inr (.inr ⟨hgone.step hstep, .inl hfound⟩)
  rcases hinv with hnone | ⟨_, hmem, hnot⟩ | ⟨hgone, hfound⟩
  · exact absurd hnone halive
  · exact ⟨fun hall => absurd hmem (hall [] s rfl), fun h => absurd h hnot⟩
  · refine ⟨fun _ => hfound, fun _ more t hmore => ?_⟩
    exact (run_invariant (I := Gone item) (fun _ _ _ hm hn => hm.step hn) hmore hgone).unlisted

/-- The sender goes down between the registration of the watch and the insertion of the
item, and the next post is addressed to it all the same. -/
theorem listed_after_lost_notification :
    let client : Message := ⟨"token", "client", 1⟩
    ∃ s, run Publisher.step (init (some 1))
        [.createItem client true, .subscriberStatus 0 false, .insertItem 0, .post "update" true] =
        some s ∧
      s.listed.map SubscriptionItem.message = [client] ∧ s.queue = [⟨"update", [client]⟩] :=
  ⟨_, rfl, rfl, rfl⟩

/-- A cancel that comes after the insertion. -/
theorem unlisted_iff_found_cancel :
    let client : Message := ⟨"token", "client", 1⟩
    let item : SubscriptionItem := ⟨0, client, 1⟩
    ∃ q n s, run Publisher.step (init (some 1)) [.createItem client true] = some q ∧
      Publisher.step q (.insertItem 0) = some n ∧
      run Publisher.step n [.subscriberCancel 1 "token"] = some s ∧
      ((∀ more t, run Publisher.step s more = some t → item ∉ t.listed) ↔
        ∃ x ∈ trace Publisher.step n [.subscriberCancel 1 "token"], x.1.FindsItem item x.2) :=
  ⟨_, _, _, rfl, rfl, rfl, unlisted_iff_found (some 1) ⟨0, ⟨"token", "client", 1⟩, 1⟩
    [.createItem ⟨"token", "client", 1⟩ true] [.subscriberCancel 1 "token"] _ _ _ rfl
    (by decide) rfl rfl (Option.some_ne_none _)⟩

end Publisher

end LSHelpers
