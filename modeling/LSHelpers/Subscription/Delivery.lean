import Mathlib.Data.List.Perm.Subperm
import Mathlib.Data.List.Nodup
import LSHelpers.Subscription.Point
import LSHelpers.Transition.Run

/-!
# What subscribers are sent

The loop over a post's messages stops at the first that cannot be responded to. When
all can, what a message is sent over a whole run is what was posted while its item
was in the list, as far as the main loop has come.
-/

namespace LSHelpers

/-! ## One post -/

theorem position_le_of_mem_respondAll {fails : Nat → Option RespondError} {payload : String}
    {i : Nat} {ms : List Message} {d : Delivery} (h : d ∈ (respondAll fails payload i ms).1) :
    i ≤ d.position := by
  induction ms generalizing i with
  | nil => simp [respondAll] at h
  | cons m ms ih =>
      unfold respondAll at h
      cases hfails : fails i with
      | some e => simp [hfails] at h
      | none =>
          simp only [hfails, List.mem_cons] at h
          rcases h with rfl | h
          · exact Nat.le_refl i
          · exact Nat.le_of_succ_le (ih h)

/-- A position is sent to, once, when no position up to it fails. -/
theorem respondAll_at (fails : Nat → Option RespondError) (payload : String) (i k : Nat)
    (ms : List Message) :
    (respondAll fails payload i ms).1.filter (fun d => d.position == i + k) =
      if ∀ j ≤ k, fails (i + j) = none then
        (ms[k]?).toList.map fun m => ⟨i + k, m, payload⟩
      else [] := by
  induction ms generalizing i k with
  | nil => simp [respondAll]
  | cons m ms ih =>
      unfold respondAll
      cases hfails : fails i with
      | some e =>
          have hstop : ¬∀ j ≤ k, fails (i + j) = none := by
            intro h
            simpa [hfails] using h 0 (Nat.zero_le k)
          rw [if_neg hstop]
          rfl
      | none =>
          dsimp only
          cases k with
          | zero =>
              have hrest : (respondAll fails payload (i + 1) ms).1.filter
                  (fun d => d.position == i + 0) = [] := by
                rw [List.filter_eq_nil_iff]
                intro d hd
                have := position_le_of_mem_respondAll hd
                simp only [beq_iff_eq]
                omega
              rw [List.filter_cons_of_pos (by simp), hrest]
              simp [hfails]
          | succ k =>
              have hreach : (∀ j ≤ k + 1, fails (i + j) = none) ↔
                  ∀ j ≤ k, fails (i + 1 + j) = none := by
                constructor
                · intro h j hj
                  simpa [Nat.add_assoc, Nat.add_comm 1 j] using h (j + 1) (by omega)
                · intro h j hj
                  cases j with
                  | zero => exact hfails
                  | succ j => simpa [Nat.add_assoc, Nat.add_comm 1 j] using h j (by omega)
              rw [List.filter_cons_of_neg (by simp), ← Nat.add_assoc, Nat.add_right_comm,
                ih (i + 1) k]
              simp only [hreach, List.getElem?_cons_succ]

theorem postSubscriptions_sent (fails : Nat → Option RespondError) (data : PostData) :
    (postSubscriptions fails data).sent = (respondAll fails data.payload 0 data.messages).1 := by
  unfold postSubscriptions
  dsimp only
  split <;> rfl

/-- Every message that can be responded to is sent the payload exactly once, if and
only if none that cannot stands before one that can. -/
theorem sent_to_healthy_iff (fails : Nat → Option RespondError) (data : PostData) :
    (∀ i m, data.messages[i]? = some m → fails i = none →
      (postSubscriptions fails data).sent.filter (fun d => d.position == i) =
        [⟨i, m, data.payload⟩]) ↔
    ∀ i j, i < j → j < data.messages.length → fails i ≠ none → fails j ≠ none := by
  have hat (i : Nat) : (postSubscriptions fails data).sent.filter (fun d => d.position == i) =
      if ∀ j ≤ i, fails j = none then
        (data.messages[i]?).toList.map fun m => ⟨i, m, data.payload⟩
      else [] := by
    rw [postSubscriptions_sent]
    simpa using respondAll_at fails data.payload 0 i data.messages
  simp only [hat]
  constructor
  · intro hsent i j hij hj hfails hhealthy
    have := hsent j data.messages[j] (List.getElem?_eq_getElem hj) hhealthy
    rw [if_neg fun h => hfails (h i (Nat.le_of_lt hij))] at this
    cases this
  · intro hbefore i m hm hhealthy
    rcases List.getElem?_eq_some_iff.mp hm with ⟨hi, -⟩
    have hreach : ∀ j ≤ i, fails j = none := by
      intro j hj
      by_contra hfails
      rcases Nat.lt_or_eq_of_le hj with hlt | rfl
      · exact hbefore j i hlt hi hfails hhealthy
      · exact hfails hhealthy
    rw [if_pos hreach, hm]
    rfl

/-- The first of two messages cannot be responded to, and the second is sent nothing. -/
theorem second_unsent_after_first_fails :
    let data : PostData := ⟨"update", [⟨"a", "client.a", 1⟩, ⟨"b", "client.b", 1⟩]⟩
    let fails : Nat → Option RespondError := fun i =>
      if i = 0 then some (.lsError "Not connected") else none
    fails 1 = none ∧ (postSubscriptions fails data).sent = [] := by
  decide

/-! ## A whole run -/

/-- The duplicate check would suppress the payload. -/
def SubscriptionPoint.repeats (p : SubscriptionPoint) (payload : String) : Bool :=
  p.mDeduplicate && payload == p.mPreviousPayload

namespace Publisher

open Transition

/-- A post that is accepted, with the items in the list when it was made. -/
structure AcceptedPost where
  payload : String
  items : List SubscriptionItem

/-- A post is accepted when it returns true and is not suppressed as a duplicate. -/
def acceptedPost (s : Publisher) : Event → Option AcceptedPost
  | .post payload hasContext =>
      s.point.bind fun p =>
        if (p.post hasContext payload).1 && !p.repeats payload then some ⟨payload, s.listed⟩
        else none
  | _ => none

/-- The accepted posts of a run, in order. -/
def acceptedPosts (s : Publisher) (events : List Event) : List AcceptedPost :=
  (trace step s events).filterMap fun x => x.1.acceptedPost x.2

def AcceptedPost.data (post : AcceptedPost) : PostData :=
  ⟨post.payload, post.items.map SubscriptionItem.message⟩

/-- The accepted posts are those that are queued, unchanged and with the messages of the
moment. -/
theorem queued_eq (s : Publisher) (e : Event) :
    s.queued e = (s.acceptedPost e).map AcceptedPost.data := by
  cases e with
  | post payload hasContext =>
      cases hp : s.point with
      | none => simp [acceptedPost, queued, hp]
      | some p =>
          simp only [acceptedPost, queued, listed, hp, Option.bind_some, Option.elim_some]
          unfold SubscriptionPoint.post SubscriptionPoint.attach SubscriptionPoint.repeats
          split_ifs <;> simp_all [AcceptedPost.data]
  | _ => rfl

theorem acceptedPost_items {s : Publisher} {e : Event} {post : AcceptedPost}
    (h : s.acceptedPost e = some post) : post.items = s.listed := by
  cases e with
  | post payload hasContext =>
      rcases Option.bind_eq_some_iff.mp h with ⟨p, _, hite⟩
      obtain ⟨_, hpost⟩ := Option.ite_none_right_eq_some.mp hite
      obtain rfl := Option.some.inj hpost
      rfl
  | _ => cases h

/-! ### The messages with an item -/

/-- The messages with an item are among those an item was made for, each no more often. -/
theorem messages_subperm {s t : Publisher} {events : List Event}
    (hs : s.listed = [] ∧ s.adding = []) (h : run step s events = some t) :
    ((t.listed ++ t.adding).map SubscriptionItem.message).Subperm (events.filterMap Event.added) := by
  refine run_history (P := fun events t =>
    ((t.listed ++ t.adding).map SubscriptionItem.message).Subperm (events.filterMap Event.added))
    (by simp [hs]) ?_ h
  intro events e m n _ hm hn
  rw [List.filterMap_append]
  rcases step_items hn with
    ⟨message, item, rfl, rfl, _, hlisted, hadding, _⟩ | ⟨item, hitem, rfl, hlisted, hadding, _⟩ |
      ⟨hadded, hlisted, hadding, _⟩
  · rw [hlisted, hadding, ← List.append_assoc, List.map_append]
    exact (List.subperm_append_right _).mpr hm
  · refine List.Subperm.trans (List.Perm.subperm ?_) (hm.trans (List.sublist_append_left ..).subperm)
    refine List.Perm.map _ ?_
    rw [hlisted, hadding, List.append_assoc]
    exact List.Perm.append_left _ (List.perm_cons_erase hitem).symm
  · rw [hlisted, hadding]
    refine List.Subperm.trans ?_ (hm.trans (List.sublist_append_left ..).subperm)
    exact (((e.keep_sublist m.listed).append_right m.adding).map _).subperm

/-! ### The posts that reach a message -/

/-- The payloads sent to a message. -/
def sentTo (m : Message) (sent : List Delivery) : List String :=
  (sent.filter fun d => d.message = m).map Delivery.payload

/-- The payloads of the posts made while a message had an item in the list. -/
def postedTo (m : Message) (posts : List AcceptedPost) : List String :=
  (posts.filter fun post => m ∈ post.items.map SubscriptionItem.message).map AcceptedPost.payload

theorem sentTo_respondAll {fails : Nat → Option RespondError} (hfails : ∀ i, fails i = none)
    (m : Message) (payload : String) (i : Nat) (ms : List Message) :
    sentTo m (respondAll fails payload i ms).1 = List.replicate (ms.count m) payload := by
  induction ms generalizing i with
  | nil => rfl
  | cons x ms ih =>
      unfold respondAll
      simp only [hfails i]
      by_cases hx : x = m
      · simpa [sentTo, hx, List.replicate_succ] using ih (i + 1)
      · simpa [sentTo, hx] using ih (i + 1)

/-- A post dispatched without failures is sent once to each of its distinct messages. -/
theorem sentTo_postSubscriptions {fails : Nat → Option RespondError} (hfails : ∀ i, fails i = none)
    (m : Message) (post : AcceptedPost)
    (hdistinct : (post.items.map SubscriptionItem.message).Nodup) :
    sentTo m (postSubscriptions fails post.data).sent = postedTo m [post] := by
  rw [postSubscriptions_sent, sentTo_respondAll hfails]
  by_cases hm : m ∈ post.items.map SubscriptionItem.message
  · simp only [AcceptedPost.data, postedTo, List.filter_cons, hm, decide_true,
      List.count_eq_one_of_mem hdistinct hm]
    rfl
  · simp only [AcceptedPost.data, postedTo, List.filter_cons, hm, decide_false,
      List.count_eq_zero_of_not_mem hm]
    rfl

/-- How far the main loop has come: the accepted posts are those sent and those queued. -/
structure Progress (posts : List AcceptedPost) (dispatched : Nat) (s : Publisher) : Prop where
  split : ∃ done pending, posts = done ++ pending ∧ done.length = dispatched ∧
    s.queue = pending.map AcceptedPost.data ∧
    ∀ m, sentTo m s.sent = postedTo m done
  distinct : ∀ post ∈ posts, (post.items.map SubscriptionItem.message).Nodup

theorem Progress.step {posts : List AcceptedPost} {dispatched : Nat} {s t : Publisher} {e : Event}
    (h : Progress posts dispatched s) (hstep : Publisher.step s e = some t)
    (hlisted : (s.listed.map SubscriptionItem.message).Nodup)
    (hrespond : ∀ fails, e = .dispatch fails → ∀ i, fails i = none) :
    Progress (posts ++ (s.acceptedPost e).toList) (dispatched + [e].countP Event.isDispatch) t := by
  rcases h.split with ⟨done, pending, rfl, rfl, hqueue, hsent⟩
  rcases step_queue hstep with ⟨fails, data, rfl, hhead, hmore⟩ | ⟨hother, htail, hsame⟩
  · rw [hqueue] at hhead
    rcases List.map_eq_cons_iff.mp hhead with ⟨post, rest, rfl, rfl, hrest⟩
    have hpost := h.distinct post (by simp)
    refine ⟨⟨done ++ [post], rest, by simp [acceptedPost],
      by simp [Event.isDispatch], hrest.symm, ?_⟩, ?_⟩
    · intro m
      have hdata := sentTo_postSubscriptions (hrespond fails rfl) m post hpost
      rw [hmore]
      simp only [sentTo, postedTo, List.filter_append, List.map_append] at hdata hsent ⊢
      rw [hsent m, hdata]
    · simpa [acceptedPost] using h.distinct
  · refine ⟨⟨done, pending ++ (s.acceptedPost e).toList, by simp, by simp [hother], ?_, ?_⟩, ?_⟩
    · rw [htail, hqueue, queued_eq, List.map_append]
      cases s.acceptedPost e <;> rfl
    · rwa [hsame]
    · intro post hpost
      rcases List.mem_append.mp hpost with hold | hnew
      · exact h.distinct post hold
      · rwa [acceptedPost_items (Option.mem_toList.mp hnew)]

/-- Over every run, a message is sent the payloads of the dispatched posts that were
made while its item was in the list, in order and each once. -/
theorem sentTo_eq_postedTo (service : Option LSHandle) (events : List Event) (s : Publisher)
    (m : Message) (h : run Publisher.step (init service) events = some s)
    (hdistinct : ((events.filterMap Event.added).map Message.uniqueToken).Nodup)
    (hrespond : ∀ fails, .dispatch fails ∈ events → ∀ i, fails i = none) :
    sentTo m s.sent = postedTo m
      ((acceptedPosts (init service) events).take (events.countP Event.isDispatch)) := by
  have hprogress : Progress (acceptedPosts (init service) events)
      (events.countP Event.isDispatch) s := by
    refine run_history (P := fun events s =>
      ((events.filterMap Event.added).map Message.uniqueToken).Nodup →
      (∀ fails, .dispatch fails ∈ events → ∀ i, fails i = none) →
      Progress (acceptedPosts (init service) events) (events.countP Event.isDispatch) s)
      ?_ ?_ h hdistinct hrespond
    · intro _ _
      exact ⟨⟨[], [], rfl, rfl, rfl, fun _ => rfl⟩, by simp [acceptedPosts]⟩
    · intro events e n t hrun hn hstep hdistinct hrespond
      rw [List.filterMap_append, List.map_append] at hdistinct
      have hold := hn (hdistinct.sublist (List.sublist_append_left ..))
        fun fails hmem => hrespond fails (List.mem_append_left _ hmem)
      have hlisted : (n.listed.map SubscriptionItem.message).Nodup := by
        obtain ⟨l, hperm, hsub⟩ := messages_subperm (by simp [init, setServiceHandle, listed]) hrun
        have hall := (hsub.nodup (List.Nodup.of_map _
          (hdistinct.sublist (List.sublist_append_left ..))))
        rw [hperm.nodup_iff, List.map_append] at hall
        exact hall.sublist (List.sublist_append_left ..)
      have hnew := hold.step hstep hlisted
        fun fails he => hrespond fails (by simp [he])
      rw [List.countP_append, acceptedPosts, trace_concat hrun hstep, List.filterMap_append]
      cases hpost : n.acceptedPost e with
      | none => simpa [hpost, acceptedPosts] using hnew
      | some post => simpa [hpost, acceptedPosts] using hnew
  rcases hprogress.split with ⟨done, pending, hposts, hcount, _, hsent⟩
  rw [hposts, ← hcount, List.take_left]
  exact hsent m

/-- One post before the client is added, one after; the object is gone when the main
loop comes to them. -/
theorem sentTo_eq_postedTo_two :
    let client : Message := ⟨"token", "client", 1⟩
    let events : List Event := [.post "first" true, .createItem client true, .insertItem 0,
      .post "second" true, .destroy, .dispatch fun _ => none, .dispatch fun _ => none]
    ∃ s, run Publisher.step (init (some 1)) events = some s ∧
      sentTo client s.sent = postedTo client
        ((acceptedPosts (init (some 1)) events).take (events.countP Event.isDispatch)) :=
  ⟨_, rfl, sentTo_eq_postedTo (some 1) _ _ ⟨"token", "client", 1⟩ rfl (by decide)
    (by simp)⟩

end Publisher

end LSHelpers
