import LSHelpers.Subscription.Delivery

/-!
# One item for a token

A cancel erases the first item with the cancelled token, and a post goes to every item.
So a message is sent to once, and no longer after its cancel, as long as no item is put
into a list that has its token already and no cancel overtakes an item on its way there.
-/

namespace LSHelpers

theorem respondAll_sublist (fails : Nat → Option RespondError) (payload : String) (i : Nat)
    (ms : List Message) : ((respondAll fails payload i ms).1.map Delivery.message).Sublist ms := by
  induction ms generalizing i with
  | nil => exact List.Sublist.refl _
  | cons m ms ih =>
      unfold respondAll
      cases fails i with
      | some e => exact List.nil_sublist _
      | none => exact (ih (i + 1)).cons_cons m

theorem eraseP_token_absent {l : List SubscriptionItem} {token : String}
    (h : (l.map fun item => item.message.uniqueToken).Nodup) :
    ∀ item ∈ l.eraseP fun item => token == item.message.uniqueToken,
      item.message.uniqueToken ≠ token := by
  induction l with
  | nil => simp
  | cons x l ih =>
      rw [List.map_cons, List.nodup_cons] at h
      by_cases hx : token = x.message.uniqueToken
      · subst hx
        rw [List.eraseP_cons_of_pos (by simp)]
        intro item hitem heq
        exact h.1 (heq ▸ List.mem_map_of_mem hitem)
      · rw [List.eraseP_cons_of_neg (by simpa using hx), List.forall_mem_cons]
        exact ⟨fun heq => hx heq.symm, ih h.2⟩

namespace Publisher

open Transition

/-- The tokens of the items in the list. -/
def tokens (s : Publisher) : List String := s.listed.map fun item => item.message.uniqueToken

/-- An item is put into the list only if no item there has its token, and a cancel comes
only when no item with its token is on its way there. -/
def FreshToken (s : Publisher) : Event → Prop
  | .insertItem address =>
      ∀ item ∈ s.adding, item.address = address → item.message.uniqueToken ∉ s.tokens
  | .subscriberCancel _ token => ∀ item ∈ s.adding, item.message.uniqueToken ≠ token
  | _ => True

instance (s : Publisher) : (e : Event) → Decidable (FreshToken s e)
  | .insertItem address => inferInstanceAs (Decidable (∀ item ∈ s.adding,
      item.address = address → item.message.uniqueToken ∉ s.tokens))
  | .subscriberCancel _ token => inferInstanceAs (Decidable (∀ item ∈ s.adding,
      item.message.uniqueToken ≠ token))
  | .setServiceHandle _ | .setDeduplicate _ | .createItem _ _ | .post _ _
  | .subscriberStatus _ _ | .dispatch _ | .destroy => isTrue trivial

/-- No item has the token. -/
def Absent (token : String) (s : Publisher) : Prop :=
  ∀ item ∈ s.listed ++ s.adding, item.message.uniqueToken ≠ token

structure UniqueTokens (s : Publisher) : Prop where
  listed : s.tokens.Nodup
  queued : ∀ data ∈ s.queue, (data.messages.map Message.uniqueToken).Nodup

theorem uniqueTokens_init (service : Option LSHandle) : UniqueTokens (init service) := by
  constructor
  · exact List.nodup_nil
  · simp [init, setServiceHandle]

theorem queued_messages {s : Publisher} {e : Event} {data : PostData}
    (h : s.queued e = some data) : data.messages = s.listed.map SubscriptionItem.message := by
  rw [queued_eq] at h
  rcases Option.map_eq_some_iff.mp h with ⟨post, hpost, rfl⟩
  rw [AcceptedPost.data, acceptedPost_items hpost]

theorem UniqueTokens.step {s t : Publisher} {e : Event} (h : UniqueTokens s)
    (hfresh : FreshToken s e) (hstep : Publisher.step s e = some t) : UniqueTokens t := by
  constructor
  · unfold tokens
    rcases step_items hstep with hcreate | hinsert | hkeep
    · rcases hcreate with ⟨message, item, rfl, _, _, hlisted, _⟩
      rw [hlisted]
      exact h.listed
    · rcases hinsert with ⟨item, hitem, rfl, hlisted, _⟩
      rw [hlisted, List.map_append]
      apply List.nodup_append.mpr
      refine ⟨h.listed, by simp, ?_⟩
      intro token htoken token' htoken' heq
      rw [List.map_singleton, List.mem_singleton] at htoken'
      subst heq htoken'
      exact hfresh item hitem rfl htoken
    · rw [hkeep.2.1]
      exact h.listed.sublist ((e.keep_sublist s.listed).map _)
  · intro data hdata
    cases step_queue hstep with
    | inl hdispatch =>
        rcases hdispatch with ⟨fails, head, _, hqueue, _⟩
        exact h.queued data (hqueue ▸ List.mem_cons_of_mem head hdata)
    | inr hother =>
        rw [hother.2.1] at hdata
        cases List.mem_append.mp hdata with
        | inl hold => exact h.queued data hold
        | inr hnew =>
            have hmessages := queued_messages (Option.mem_toList.mp hnew)
            rw [hmessages, List.map_map]
            exact h.listed

/-- A token that no item has comes in only by an `addSubscription`. -/
theorem Absent.step {s t : Publisher} {e : Event} {token : String} (h : Absent token s)
    (hnot : ∀ message ∈ e.added, message.uniqueToken ≠ token)
    (hstep : Publisher.step s e = some t) : Absent token t := by
  rcases step_items hstep with hcreate | hinsert | hkeep
  · rcases hcreate with ⟨message, item, rfl, hmessage, _, hlisted, hadding, _⟩
    intro other hother
    rw [hlisted, hadding, ← List.append_assoc] at hother
    cases List.mem_append.mp hother with
    | inl hold => exact h other hold
    | inr hnew =>
        rw [List.mem_singleton.mp hnew, hmessage]
        exact hnot message rfl
  · rcases hinsert with ⟨item, hitem, rfl, hlisted, hadding, _⟩
    intro other hother
    apply h other
    rw [hlisted, hadding, List.append_assoc] at hother
    have hperm := List.Perm.append_left s.listed (List.perm_cons_erase hitem)
    exact hperm.mem_iff.mpr hother
  · intro other hother
    apply h other
    rw [hkeep.2.1, hkeep.2.2.1] at hother
    exact ((e.keep_sublist s.listed).append_right s.adding).subset hother

/-- What is asked of a run: a dispatched post is sent at most once per token, and a post
made after a cancel goes to no message with the cancelled token, unless a message with it
was added in between. -/
structure OncePerToken (service : Option LSHandle) (events : List Event) : Prop where
  once : ∀ pre fails post s data rest, events = pre ++ .dispatch fails :: post →
    run step (init service) pre = some s → s.queue = data :: rest →
    ((postSubscriptions fails data).sent.map fun d => d.message.uniqueToken).Nodup
  silent : ∀ pre sh token mid payload hasContext post n s data,
    events = pre ++ .subscriberCancel sh token :: mid ++ .post payload hasContext :: post →
    run step (init service) (pre ++ [.subscriberCancel sh token]) = some n →
    (∀ e ∈ mid, ∀ message ∈ e.added, message.uniqueToken ≠ token) → run step n mid = some s →
    s.queued (.post payload hasContext) = some data →
    ∀ message ∈ data.messages, message.uniqueToken ≠ token

theorem uniqueTokens_of_run {service : Option LSHandle} {events : List Event} {s : Publisher}
    (hmeets : Meets step FreshToken (init service) events)
    (h : run step (init service) events = some s) : UniqueTokens s :=
  run_induction (P := fun _ s => UniqueTokens s) (uniqueTokens_init service)
    (fun _ _ _ _ _ hm hfresh hstep => hm.step hfresh hstep) hmeets h

/-- A handled cancel leaves no item with its token. -/
theorem absent_of_cancel {s t : Publisher} {sh : LSHandle} {token : String}
    (h : UniqueTokens s) (hadding : ∀ item ∈ s.adding, item.message.uniqueToken ≠ token)
    (hstep : step s (.subscriberCancel sh token) = some t) : Absent token t := by
  rcases step_items hstep with hcreate | hinsert | hkeep
  · rcases hcreate with ⟨_, _, he, _⟩
    cases he
  · rcases hinsert with ⟨_, _, he, _⟩
    cases he
  · intro item hitem
    rw [hkeep.2.1, hkeep.2.2.1] at hitem
    cases List.mem_append.mp hitem with
    | inl hlisted => exact eraseP_token_absent h.listed item hlisted
    | inr hpending => exact hadding item hpending

/-- In every run that puts no second item for a token into the list, and cancels no token
whose item is on its way there. -/
theorem oncePerToken_of_fresh (service : Option LSHandle) (events : List Event)
    (hmeets : Meets step FreshToken (init service) events) : OncePerToken service events where
  once pre fails post s data rest hsplit hrun hqueue := by
    subst hsplit
    have hunique := uniqueTokens_of_run hmeets.prefix hrun
    have hdata := hunique.queued data (hqueue ▸ List.mem_cons_self)
    have hsub := (respondAll_sublist fails data.payload 0 data.messages).map Message.uniqueToken
    rw [postSubscriptions_sent]
    rw [List.map_map] at hsub
    exact hdata.sublist hsub
  silent pre sh token mid payload hasContext post n s data hsplit hcancel hnot hmid hqueued := by
    subst hsplit
    rcases run_concat_iff.mp hcancel with ⟨m, hm, hstep⟩
    have hcut : Meets step FreshToken (init service) (pre ++ [.subscriberCancel sh token]) := by
      have hassoc : pre ++ .subscriberCancel sh token :: mid ++ .post payload hasContext :: post =
          pre ++ [.subscriberCancel sh token] ++ (mid ++ .post payload hasContext :: post) := by
        simp
      rw [hassoc] at hmeets
      exact hmeets.prefix
    have habsent := absent_of_cancel (uniqueTokens_of_run hcut.prefix hm) (hcut.last hm) hstep
    have hstill : Absent token s :=
      run_induction (P := fun _ s => Absent token s) habsent
        (fun _ _ _ _ _ hm hnot hstep => hm.step hnot hstep)
        (Meets.of_forall fun e he _ => hnot e he) hmid
    rw [queued_messages hqueued]
    intro message hmessage
    rcases List.mem_map.mp hmessage with ⟨item, hitem, rfl⟩
    exact hstill item (List.mem_append_left _ hitem)

/-- A client that is added, cancelled and added again. -/
theorem oncePerToken_of_readded :
    OncePerToken (some 1) [.createItem ⟨"token", "client", 1⟩ true, .insertItem 0,
      .subscriberCancel 1 "token", .createItem ⟨"token", "client", 1⟩ true, .insertItem 1,
      .post "update" true, .dispatch fun _ => none] := by
  apply oncePerToken_of_fresh
  decide

/-- A message is added twice. A post is sent to it twice, and one made after its cancel
is still queued for it. -/
theorem added_twice :
    let client : Message := ⟨"token", "client", 1⟩
    let events : List Event := [.createItem client true, .insertItem 0, .createItem client true,
      .insertItem 1, .post "first" true, .dispatch fun _ => none, .subscriberCancel 1 "token",
      .post "second" true]
    ¬ OncePerToken (some 1) events ∧
      ∃ s, run step (init (some 1)) events = some s ∧
        s.sent.map Delivery.message = [client, client] ∧
        s.queue.map PostData.messages = [[client]] := by
  constructor
  · intro h
    have hsent := h.once [.createItem ⟨"token", "client", 1⟩ true, .insertItem 0,
      .createItem ⟨"token", "client", 1⟩ true, .insertItem 1, .post "first" true]
      (fun _ => none) _ _ _ _ rfl rfl rfl
    exact absurd hsent (by decide)
  · exact ⟨_, rfl, rfl, rfl⟩

end Publisher

end LSHelpers
