import LSHelpers.Call.Channel

/-!
# What a handler is started with

The handler of a call is started with the messages for it, in order and without a gap: with
all that have come while the call is live, and with those that came before it was closed
otherwise. A call that is not given up is live until it is served.
-/

namespace LSHelpers

open Transition

namespace Channel

variable {pf : Platform}

/-! ## Calls and their objects -/

def calls (s : Channel) : List MadeCall := s.links.map Link.toMadeCall

theorem call_mem {s : Channel} {i : Nat} {link : Link} (hi : s.links[i]? = some link) :
    link.toMadeCall ∈ s.calls :=
  List.mem_map_of_mem (List.mem_of_getElem? hi)

theorem makes_call {s : Channel} {hasHandler oneReply : Bool} {token t : LSMessageToken} {a : Nat}
    (hcall : (s.makes hasHandler oneReply token).call = ⟨t, some a⟩) :
    hasHandler = true ∧ token = t ∧ s.caller.nextAddress = a := by
  cases hasHandler <;> simp_all [makes]

/-- The responses that a handler was started with. -/
def handledAt (s : Channel) (address : Nat) : List JsonResponse :=
  (s.handled.filter fun x => x.1 == address).map Prod.snd

theorem calls_mapIdx (links : List Link) (more : Nat → List ResponseMessage) :
    (links.mapIdx fun i link => { link with sent := link.sent ++ more i }).map Link.toMadeCall =
      links.map Link.toMadeCall := by
  refine List.ext_getElem? fun i => ?_
  rw [List.getElem?_map, List.getElem?_map, List.getElem?_mapIdx, Option.map_map]
  rfl

theorem calls_set {links : List Link} {i : Nat} {link : Link} (hi : links[i]? = some link)
    (taken : Nat) :
    (links.set i { link with taken }).map Link.toMadeCall = links.map Link.toMadeCall := by
  rcases List.getElem?_eq_some_iff.mp hi with ⟨hlt, hget⟩
  have hlt' : i < (links.map Link.toMadeCall).length := by simpa using hlt
  have hsame : link.toMadeCall = (links.map Link.toMadeCall)[i] := by simp [hget]
  rw [List.map_set, hsame, List.set_getElem_self]

theorem getElem?_concat {α : Type*} {l : List α} {x y : α} {i : Nat}
    (h : (l ++ [x])[i]? = some y) : l[i]? = some y ∨ (i = l.length ∧ y = x) := by
  rw [List.getElem?_append] at h
  split at h
  · exact .inl h
  · rcases List.getElem?_eq_some_iff.mp h with ⟨hlt, rfl⟩
    have hi : i - l.length < 1 := hlt
    exact .inr ⟨by omega, by simp⟩

/-- Changing one item leaves the others. -/
theorem getElem?_set_cases {α : Type*} {l : List α} {i j : Nat} {x new old : α}
    (hi : l[i]? = some x) (hj : (l.set i new)[j]? = some old) :
    (j = i ∧ old = new) ∨ (j ≠ i ∧ l[j]? = some old) := by
  by_cases hij : j = i
  · subst hij
    rcases List.getElem?_eq_some_iff.mp hi with ⟨hlt, _⟩
    rw [List.getElem?_set_self hlt] at hj
    exact .inl ⟨rfl, (Option.some.inj hj).symm⟩
  · rw [List.getElem?_set_ne (Ne.symm hij)] at hj
    exact .inr ⟨hij, hj⟩

theorem prefix_concat_of_getElem? {α : Type*} {l l' : List α} {x : α} (h : l <+: l')
    (hx : l'[l.length]? = some x) : l ++ [x] <+: l' := by
  rcases h with ⟨rest, rfl⟩
  cases rest with
  | nil => simp at hx
  | cons y rest =>
      obtain rfl : y = x := by simpa using hx
      exact ⟨rest, by simp⟩

/-- Every handler start belongs to a call, and every call with a handler has an address
of its own. -/
structure Joined (s : Channel) : Prop where
  idle : s.caller.Idle
  started : s.caller.started.map Invocation.address = s.handled.map Prod.fst
  alone : ∀ (i j : Nat) (c c' : MadeCall) t t' a, s.calls[i]? = some c →
    s.calls[j]? = some c' → c.call = ⟨t, some a⟩ → c'.call = ⟨t', some a⟩ → i = j
  used : ∀ c ∈ s.calls, ∀ t a, c.call = ⟨t, some a⟩ → a < s.caller.nextAddress
  handled : ∀ x ∈ s.handled, ∃ c ∈ s.calls, ∃ t, c.call = ⟨t, some x.1⟩
  kind : ∀ c ∈ s.calls, ∀ t a, c.call = ⟨t, some a⟩ → ⟨t, some a⟩ ∈ s.caller.live →
    s.caller.Holds t c.oneReply

theorem joined_init (handle : Option LSHandle) : (init handle).Joined where
  idle := Caller.idle_init handle
  started := rfl
  alone := by simp [init, calls]
  used := by simp [init, calls]
  handled := by simp [init]
  kind := by simp [init, calls]

namespace Joined

variable {s n : Channel} (h : s.Joined)
include h

/-- The caller moves, and no call is added. -/
theorem of_caller {e : Caller.CallEvent} (hcaller : s.caller.callStep e = some n.caller)
    (hcalls : n.calls = s.calls)
    (hstarted : n.caller.started.map Invocation.address = n.handled.map Prod.fst)
    (hhandled : ∀ x ∈ n.handled, ∃ c ∈ s.calls, ∃ t, c.call = ⟨t, some x.1⟩) : n.Joined := by
  rcases h.idle.live_of_callStep hcaller with ⟨hnext, hlive⟩
  constructor
  case idle => exact h.idle.callStep hcaller
  case started => exact hstarted
  case alone => simpa only [hcalls] using h.alone
  case used =>
    intro c hc t a hcall
    rw [hcalls] at hc
    exact Nat.lt_of_lt_of_le (h.used c hc t a hcall) hnext
  case handled => simpa only [hcalls] using hhandled
  case kind =>
    intro c hc t a hcall hstays
    rw [hcalls] at hc
    have hold := hlive t a hstays (h.used c hc t a hcall)
    have hkind := h.kind c hc t a hcall hold
    exact (h.idle.holds_of_callStep hcaller hold _).mpr
      ⟨hkind, (h.idle.live_iff hcaller hold hkind).mp hstays⟩

/-- The caller stays as it is, and no call is added. -/
theorem of_same (hcaller : n.caller = s.caller) (hcalls : n.calls = s.calls)
    (hhandled : n.handled = s.handled) : n.Joined := by
  constructor
  case idle => exact hcaller ▸ h.idle
  case started => rw [hcaller, hhandled, h.started]
  case alone => simpa only [hcalls] using h.alone
  case used => simpa only [hcalls, hcaller] using h.used
  case handled => simpa only [hcalls, hhandled] using h.handled
  case kind => simpa only [hcalls, hcaller] using h.kind

/-- A call goes out. -/
theorem called {hasHandler oneReply : Bool} {token : LSMessageToken}
    (hcaller : s.caller.callStep (.makeCall hasHandler oneReply (some token)) = some n.caller)
    (hcalls : n.calls = s.calls ++ [s.makes hasHandler oneReply token])
    (hhandled : n.handled = s.handled) : n.Joined := by
  rcases h.idle.live_of_callStep hcaller with ⟨hnext, hlive⟩
  have hold {c : MadeCall} (hc : c ∈ s.calls) {t : LSMessageToken} {a : Nat}
      (hcall : c.call = ⟨t, some a⟩) : a ≠ s.caller.nextAddress :=
    Nat.ne_of_lt (h.used c hc t a hcall)
  constructor
  case idle => exact h.idle.callStep hcaller
  case started =>
    rw [h.idle.started_of_callStep hcaller (by simp), hhandled, h.started]
  case alone =>
    intro i j c c' t t' a hi hj hcall hcall'
    rw [hcalls] at hi hj
    rcases getElem?_concat hi with hi | ⟨rfl, rfl⟩
    · rcases getElem?_concat hj with hj | ⟨rfl, rfl⟩
      · exact h.alone i j c c' t t' a hi hj hcall hcall'
      · exact absurd (makes_call hcall').2.2.symm (hold (List.mem_of_getElem? hi) hcall)
    · rcases getElem?_concat hj with hj | ⟨rfl, rfl⟩
      · exact absurd (makes_call hcall).2.2.symm (hold (List.mem_of_getElem? hj) hcall')
      · rfl
  case used =>
    intro c hc t a hcall
    rw [hcalls] at hc
    rcases List.mem_append.mp hc with hc | hc
    · exact Nat.lt_of_lt_of_le (h.used c hc t a hcall) hnext
    · obtain rfl := List.mem_singleton.mp hc
      rcases makes_call hcall with ⟨rfl, _, rfl⟩
      rcases Caller.callStep_makeCall hcaller with ⟨_, p, _, _, hn⟩ | ⟨hnone, _⟩
      · rw [hn]
        exact Nat.lt_succ_self _
      · cases hnone
  case handled =>
    intro x hx
    rw [hhandled] at hx
    rcases h.handled x hx with ⟨c, hc, t, hcall⟩
    rw [hcalls]
    exact ⟨c, List.mem_append_left _ hc, t, hcall⟩
  case kind =>
    intro c hc t a hcall hstays
    rw [hcalls] at hc
    rcases List.mem_append.mp hc with hc | hc
    · have halive := hlive t a hstays (h.used c hc t a hcall)
      exact (h.idle.holds_of_callStep hcaller halive _).mpr ⟨h.kind c hc t a hcall halive, rfl⟩
    · obtain rfl := List.mem_singleton.mp hc
      rcases makes_call hcall with ⟨rfl, rfl, rfl⟩
      rcases Caller.callStep_makeCall hcaller with ⟨_, p, hp, hfresh, hn⟩ | ⟨hnone, _⟩
      · rw [hn, Caller.holds_makeCall_iff h.idle.1 hp hfresh]
        exact .inl ⟨rfl, rfl⟩
      · cases hnone

theorem step {e : Event} (hstep : Channel.step pf s e = some n) : n.Joined := by
  cases step_cases pf hstep with
  | called hcaller => exact h.called hcaller (by simp [calls]) rfl
  | failed => exact h
  | cancelCall hcaller | destroy hcaller =>
      refine h.of_caller hcaller rfl ?_ h.handled
      rw [h.idle.started_of_callStep hcaller (by simp), h.started]
  | send more => exact h.of_same rfl (calls_mapIdx s.links more) rfl
  | dropped hi _ _ => exact h.of_same rfl (calls_set hi _) rfl
  | @delivered _ link _ _ hi hmessage hlive hcaller =>
      refine h.of_caller hcaller (calls_set hi _) ?_ ?_
      · rw [h.idle.reply_started hlive hcaller, h.started]
        simp [Function.comp_def]
      · intro x hx
        rcases List.mem_append.mp hx with hx | hx
        · exact h.handled x hx
        · rcases List.mem_map.mp hx with ⟨a, ha, rfl⟩
          have hcontext : link.call.context = some a := by simpa using ha
          refine ⟨link.toMadeCall, call_mem hi, link.call.token, ?_⟩
          rw [← hcontext]

end Joined

/-! ## The messages of one call -/

/-- How the handler of a call stands to what has been sent to the call. -/
structure Streamed (pf : Platform) (s : Channel) (link : Link) (t : LSMessageToken) (a : Nat) :
    Prop where
  inOrder : s.handledAt a <+: link.responses pf
  taken : (s.handledAt a).length ≤ link.taken
  sent : link.taken ≤ link.sent.length
  once : link.oneReply = true → (s.handledAt a).length ≤ 1
  live : ⟨t, some a⟩ ∈ s.caller.live →
    (s.handledAt a).length = link.taken ∧ (link.oneReply = true → link.taken = 0)

namespace Streamed

variable {s n : Channel} {link : Link} {t : LSMessageToken} {a : Nat}

theorem fresh {c : MadeCall} (hnone : n.handledAt a = []) : Streamed pf n ⟨c, [], 0⟩ t a := by
  constructor <;> simp [hnone]

/-- Nothing arrives, and the call does not come to life. -/
theorem sends (h : Streamed pf s link t a) (more : List ResponseMessage)
    (hhandled : n.handledAt a = s.handledAt a)
    (hlive : ⟨t, some a⟩ ∈ n.caller.live → ⟨t, some a⟩ ∈ s.caller.live) :
    Streamed pf n { link with sent := link.sent ++ more } t a where
  inOrder := by
    rw [hhandled]
    exact h.inOrder.trans ((List.prefix_append link.sent more).map _)
  taken := hhandled ▸ h.taken
  sent := h.sent.trans (List.prefix_append link.sent more).length_le
  once := hhandled ▸ h.once
  live := by
    intro hstays
    rw [hhandled]
    exact h.live (hlive hstays)

theorem of_same (h : Streamed pf s link t a) (hhandled : n.handledAt a = s.handledAt a)
    (hlive : ⟨t, some a⟩ ∈ n.caller.live → ⟨t, some a⟩ ∈ s.caller.live) :
    Streamed pf n link t a := by
  simpa using h.sends [] hhandled hlive

/-- A message for a call that is closed. -/
theorem dropped (h : Streamed pf s link t a) {message : ResponseMessage}
    (hmessage : link.sent[link.taken]? = some message) (hdead : ⟨t, some a⟩ ∉ s.caller.live)
    (hhandled : n.handledAt a = s.handledAt a) (hcaller : n.caller = s.caller) :
    Streamed pf n { link with taken := link.taken + 1 } t a where
  inOrder := hhandled ▸ h.inOrder
  taken := hhandled ▸ Nat.le_succ_of_le h.taken
  sent := (List.getElem?_eq_some_iff.mp hmessage).1
  once := hhandled ▸ h.once
  live := by
    intro hlive
    exact absurd (hcaller ▸ hlive) hdead

/-- The next message. -/
theorem delivered (h : Streamed pf s link t a) {message : ResponseMessage}
    (hmessage : link.sent[link.taken]? = some message)
    (hhandled : n.handledAt a =
      s.handledAt a ++ [JsonResponse.handleLunaResponse pf pf.allSchema message])
    (hlive : ⟨t, some a⟩ ∈ s.caller.live)
    (hstays : ⟨t, some a⟩ ∈ n.caller.live → link.oneReply = false) :
    Streamed pf n { link with taken := link.taken + 1 } t a := by
  rcases h.live hlive with ⟨hall, hfirst⟩
  have hlength : (n.handledAt a).length = link.taken + 1 := by simp [hhandled, hall]
  have hnext : (link.responses pf)[(s.handledAt a).length]? =
      some (JsonResponse.handleLunaResponse pf pf.allSchema message) := by
    simp [Link.responses, hall, hmessage]
  constructor
  case inOrder =>
    rw [hhandled]
    exact prefix_concat_of_getElem? h.inOrder hnext
  case taken => exact le_of_eq hlength
  case sent => exact (List.getElem?_eq_some_iff.mp hmessage).1
  case once =>
    intro hone
    rw [hlength, hfirst hone]
  case live =>
    intro hmore
    refine ⟨hlength, ?_⟩
    intro hone
    rw [hstays hmore] at hone
    cases hone

end Streamed

/-- Every call with a handler is served in order. -/
def Streams (pf : Platform) (s : Channel) : Prop :=
  ∀ (i : Nat) link t a, s.links[i]? = some link → link.call = ⟨t, some a⟩ →
    Streamed pf s link t a

theorem Joined.handledAt_fresh {s : Channel} (h : s.Joined) {a : Nat}
    (ha : s.caller.nextAddress ≤ a) : s.handledAt a = [] := by
  rw [handledAt, List.map_eq_nil_iff, List.filter_eq_nil_iff]
  intro x hx heq
  rcases h.handled x hx with ⟨c, hc, t, hcall⟩
  have hused := h.used c hc t x.1 hcall
  have hsame : x.1 = a := by simpa using heq
  omega

/-- What is given under another address. -/
theorem filter_context_ne {context : Option Nat} {a : Nat} (hother : context ≠ some a)
    (handled : List (Nat × JsonResponse)) (response : JsonResponse) :
    ((handled ++ context.toList.map fun address => (address, response)).filter fun x =>
      x.1 == a).map Prod.snd = (handled.filter fun x => x.1 == a).map Prod.snd := by
  cases context with
  | none => simp
  | some a' =>
      have hne : a' ≠ a := fun heq => hother (congrArg some heq)
      simp [hne]

/-- What is given to one call is not given to another. -/
theorem Joined.handledAt_other {s : Channel} (h : s.Joined) {i j : Nat} {link old : Link}
    (hi : s.links[i]? = some link) (hj : s.links[j]? = some old) (hij : j ≠ i)
    {t : LSMessageToken} {a : Nat} (hcall : old.call = ⟨t, some a⟩) :
    link.call.context ≠ some a := by
  intro hcontext
  have hcall' : link.call = ⟨link.call.token, some a⟩ := by rw [← hcontext]
  exact hij (h.alone j i old.toMadeCall link.toMadeCall t link.call.token a
    (by simp [calls, hj]) (by simp [calls, hi]) hcall hcall')

theorem Streams.step {s n : Channel} {e : Event} (h : s.Streams pf) (hs : s.Joined)
    (hstep : Channel.step pf s e = some n) : n.Streams pf := by
  have hkept {caller : Caller} {e : Caller.CallEvent} (hcaller : s.caller.callStep e = some caller)
      {i : Nat} {link : Link} {t : LSMessageToken} {a : Nat} (hi : s.links[i]? = some link)
      (hcall : link.call = ⟨t, some a⟩) (hlive : ⟨t, some a⟩ ∈ caller.live) :
      ⟨t, some a⟩ ∈ s.caller.live :=
    (hs.idle.live_of_callStep hcaller).2 t a hlive (hs.used _ (call_mem hi) t a hcall)
  intro j old t a hj hcall
  cases step_cases pf hstep with
  | called hcaller =>
      rcases getElem?_concat hj with hj | ⟨rfl, rfl⟩
      · exact (h j old t a hj hcall).of_same rfl fun hlive => hkept hcaller hj hcall hlive
      · have hnone : s.handledAt a = [] := hs.handledAt_fresh (makes_call hcall).2.2.le
        exact Streamed.fresh hnone
  | failed => exact h j old t a hj hcall
  | cancelCall hcaller | destroy hcaller =>
      exact (h j old t a hj hcall).of_same rfl fun hlive => hkept hcaller hj hcall hlive
  | send more =>
      rw [List.getElem?_mapIdx] at hj
      rcases Option.map_eq_some_iff.mp hj with ⟨link, hi, rfl⟩
      exact (h j link t a hi hcall).sends (more j) rfl id
  | dropped hi hmessage hdead =>
      rcases getElem?_set_cases hi hj with ⟨rfl, rfl⟩ | ⟨_, hj⟩
      · exact (h j _ t a hi hcall).dropped hmessage (hcall ▸ hdead) rfl rfl
      · exact (h j old t a hj hcall).of_same rfl id
  | @delivered i link message caller hi hmessage hlive hcaller =>
      rcases getElem?_set_cases hi hj with ⟨rfl, rfl⟩ | ⟨hij, hj⟩
      · replace hcall : link.call = ⟨t, some a⟩ := hcall
        rw [hcall] at hlive hcaller
        have hkind := hs.kind _ (call_mem hi) t a hcall hlive
        refine (h j link t a hi hcall).delivered hmessage ?_ hlive ?_
        · simp [handledAt, hcall]
        · intro hstays
          have hopen := (hs.idle.live_iff hcaller hlive hkind).mp hstays
          simpa [Caller.CallEvent.closes] using hopen
      · have hother := hs.handledAt_other hi hj hij hcall
        exact (h j old t a hj hcall).of_same (filter_context_ne hother _ _)
          fun hlive => hkept hcaller hj hcall hlive

/-- What holds of a service point in every run. -/
structure Served (pf : Platform) (s : Channel) : Prop extends s.Joined where
  streams : s.Streams pf

theorem Served.step {s n : Channel} {e : Event} (h : s.Served pf)
    (hstep : Channel.step pf s e = some n) : n.Served pf :=
  ⟨h.toJoined.step hstep, h.streams.step h.toJoined hstep⟩

theorem served_init (handle : Option LSHandle) : (init handle).Served pf :=
  ⟨joined_init handle, by simp [Streams, init]⟩

theorem served_of_run {s n : Channel} {events : List Event} (hs : s.Served pf)
    (h : run (Channel.step pf) s events = some n) : n.Served pf :=
  run_invariant (fun _ _ _ hm hn => hm.step hn) h hs

/-! ## Calls that are kept -/

/-- The event gives up what was called under the token. -/
def Event.givesUp (token : LSMessageToken) : Event → Bool
  | .cancelCall t => t == token
  | .destroy => true
  | _ => false

/-- The call is live, or it was for one reply and has had it. -/
def Awaited (s : Channel) (c : MadeCall) (t : LSMessageToken) (a : Nat) : Prop :=
  ⟨t, some a⟩ ∈ s.caller.live ∨ c.oneReply = true ∧ s.handledAt a ≠ []

theorem Awaited.step {s n : Channel} {e : Event} {c : MadeCall} {t : LSMessageToken} {a : Nat}
    (h : s.Awaited c t a) (hs : s.Joined) (hc : c ∈ s.calls) (hcall : c.call = ⟨t, some a⟩)
    (hkept : e.givesUp t = false) (hstep : Channel.step pf s e = some n) : n.Awaited c t a := by
  rcases h with hlive | ⟨hone, hstarted⟩
  · have hkind := hs.kind c hc t a hcall hlive
    have hstays {caller : Caller} {e : Caller.CallEvent}
        (hcaller : s.caller.callStep e = some caller) (hopen : e.closes t c.oneReply = false) :
        ⟨t, some a⟩ ∈ caller.live :=
      (hs.idle.live_iff hcaller hlive hkind).mpr hopen
    cases step_cases pf hstep with
    | called hcaller => exact .inl (hstays hcaller rfl)
    | failed | send _ | dropped _ _ _ => exact .inl hlive
    | cancelCall hcaller => exact .inl (hstays hcaller hkept)
    | destroy _ => cases hkept
    | @delivered i link message caller hi hmessage hlive' hcaller =>
        cases hcloses : (Caller.CallEvent.reply link.call.token).closes t c.oneReply with
        | false => exact .inl (hstays hcaller hcloses)
        | true =>
            rw [Caller.CallEvent.closes, Bool.and_eq_true, beq_iff_eq] at hcloses
            have hsame := hs.idle.1.eq_of_token hlive' hlive hcloses.2
            exact .inr ⟨hcloses.1, by simp [handledAt, hsame]⟩
  · refine .inr ⟨hone, ?_⟩
    cases step_cases pf hstep with
    | delivered _ _ _ _ =>
        intro hnil
        rw [handledAt, List.filter_append, List.map_append, List.append_eq_nil_iff] at hnil
        exact hstarted hnil.1
    | _ => exact hstarted

/-- What the event sends to the call `i`. -/
def Event.sentTo (i : Nat) : Event → List ResponseMessage
  | .send more => more i
  | _ => []

/-- A link keeps its call, and what has been sent stays sent. -/
theorem step_link {s n : Channel} {e : Event} (hstep : Channel.step pf s e = some n) {i : Nat}
    {link : Link} (hi : s.links[i]? = some link) :
    ∃ link', n.links[i]? = some link' ∧ link'.toMadeCall = link.toMadeCall ∧
      link'.sent = link.sent ++ e.sentTo i := by
  have hset {j : Nat} {old : Link} (hj : s.links[j]? = some old) (taken : Nat) :
      ∃ link', (s.links.set j { old with taken })[i]? = some link' ∧
        link'.toMadeCall = link.toMadeCall ∧ link'.sent = link.sent ++ [] := by
    rw [List.append_nil]
    by_cases hij : i = j
    · subst hij
      obtain rfl := Option.some.inj (hi.symm.trans hj)
      rcases List.getElem?_eq_some_iff.mp hi with ⟨hlt, _⟩
      exact ⟨_, List.getElem?_set_self hlt, rfl, rfl⟩
    · exact ⟨link, (List.getElem?_set_ne (Ne.symm hij)).trans hi, rfl, rfl⟩
  cases step_cases pf hstep with
  | called _ =>
      rcases List.getElem?_eq_some_iff.mp hi with ⟨hlt, _⟩
      exact ⟨link, (List.getElem?_append_left hlt).trans hi, rfl, (List.append_nil _).symm⟩
  | failed | cancelCall _ | destroy _ => exact ⟨link, hi, rfl, (List.append_nil _).symm⟩
  | send more =>
      exact ⟨{ link with sent := link.sent ++ more i }, by simp [List.getElem?_mapIdx, hi], rfl,
        rfl⟩
  | delivered hj _ _ _ | dropped hj _ _ => exact hset hj _

/-- What has come of a call that is kept has been given to its handler. -/
theorem Awaited.handled {s : Channel} {t : LSMessageToken} {a i : Nat} {link : Link}
    (h : s.Awaited link.toMadeCall t a) (hs : s.Streams pf) (hi : s.links[i]? = some link)
    (hcall : link.call = ⟨t, some a⟩) :
    s.handledAt a =
      (link.responses pf).take (if link.oneReply then min 1 link.taken else link.taken) := by
  have hstream := hs i link t a hi hcall
  rw [List.prefix_iff_eq_take.mp hstream.inOrder]
  rcases h with hlive | ⟨hone, hstarted⟩
  · rcases hstream.live hlive with ⟨hall, hfirst⟩
    rw [hall]
    cases hone : link.oneReply with
    | false => rfl
    | true => simp [hfirst hone]
  · have hlength : (s.handledAt a).length = 1 := by
      have hpos := List.length_pos_iff.mpr hstarted
      have honce := hstream.once hone
      omega
    have htaken := hstream.taken
    rw [hlength] at htaken ⊢
    simp [hone, htaken]

/-- The link of call `i` is that of `c`, which is served and not given up. -/
structure Keeps (pf : Platform) (s : Channel) (i : Nat) (c : MadeCall) (t : LSMessageToken)
    (a : Nat) : Prop extends s.Served pf where
  awaited : s.Awaited c t a
  link : ∃ link, s.links[i]? = some link ∧ link.toMadeCall = c

theorem Keeps.step {s n : Channel} {e : Event} {i : Nat} {c : MadeCall} {t : LSMessageToken}
    {a : Nat} (h : s.Keeps pf i c t a) (hcall : c.call = ⟨t, some a⟩)
    (hkept : e.givesUp t = false) (hstep : Channel.step pf s e = some n) : n.Keeps pf i c t a := by
  rcases h.link with ⟨link, hi, hmade⟩
  refine ⟨h.toServed.step hstep, ?_, ?_⟩
  · exact h.awaited.step h.toJoined (hmade ▸ call_mem hi) hcall hkept hstep
  · rcases step_link hstep hi with ⟨link', hi', hmade', _⟩
    exact ⟨link', hi', hmade'.trans hmade⟩

theorem keeps_makeCall {m n : Channel} {oneReply : Bool} {token : LSMessageToken}
    (hm : m.Served pf)
    (hn : Channel.step pf m (.makeCall true oneReply (some token)) = some n) :
    n.Keeps pf m.links.length (m.makes true oneReply token) token m.caller.nextAddress := by
  have hserved := hm.step hn
  cases step_cases pf hn with
  | called hcaller =>
      refine ⟨hserved, .inl ?_, _, List.getElem?_concat_length, rfl⟩
      rcases Caller.callStep_makeCall hcaller with ⟨_, p, _, _, rfl⟩ | ⟨hnone, _⟩
      · simp [Caller.made, Caller.insert, Caller.store, Caller.issue, Caller.eraseCall]
      · cases hnone

/-- A call that is made and kept has its handler started with what has come of it. -/
theorem kept_of_run {m n s : Channel} {oneReply : Bool} {token : LSMessageToken}
    {events : List Event} (hm : m.Served pf)
    (hn : Channel.step pf m (.makeCall true oneReply (some token)) = some n)
    (hkept : Meets (Channel.step pf) (fun _ e => e.givesUp token = false) n events)
    (hs : run (Channel.step pf) n events = some s) :
    ∃ link, s.links[m.links.length]? = some link ∧
      link.toMadeCall = m.makes true oneReply token ∧
      s.handledAt m.caller.nextAddress =
        (link.responses pf).take (if oneReply then min 1 link.taken else link.taken) := by
  have hkeeps := run_induction (P := fun _ s => s.Keeps pf m.links.length
      (m.makes true oneReply token) token m.caller.nextAddress) (keeps_makeCall hm hn)
    (fun _ _ _ _ _ hu hopen hv => hu.step rfl hopen hv) hkept hs
  rcases hkeeps.link with ⟨link, hi, hmade⟩
  have hone : link.oneReply = oneReply := congrArg MadeCall.oneReply hmade
  refine ⟨link, hi, hmade, ?_⟩
  rw [← hone]
  exact (hmade ▸ hkeeps.awaited).handled hkeeps.streams hi (congrArg MadeCall.call hmade)

end Channel

end LSHelpers
