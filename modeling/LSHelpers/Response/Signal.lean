import LSHelpers.Response.JsonResponse

/-!
# Subscriptions to signals

`subscribeToSignal` makes a call with many replies and wraps the user's handler: the
first response, the reply to the addmatch request, is meant to be consumed if it is a
success. The wrapper keeps a flag for it, shared by its copies, and lowers the flag only
when it consumes a response.
-/

namespace LSHelpers

open JsonResponse

/-- The flag of the wrapper, and the responses given to the user's handler. -/
structure SignalCall where
  firstResponse : Bool
  delivered : List JsonResponse

namespace SignalCall

def start : SignalCall := ⟨true, []⟩

/-- `wrapperFunc`. -/
def wrapperFunc (s : SignalCall) (response : JsonResponse) : SignalCall :=
  if s.firstResponse && response.isSuccess then { s with firstResponse := false }
  else { s with delivered := s.delivered ++ [response] }

/-- The call gets a message of the bus. -/
def receive (pf : Platform) (s : SignalCall) (msg : ResponseMessage) : SignalCall :=
  s.wrapperFunc (handleLunaResponse pf pf.allSchema msg)

def receiveAll (pf : Platform) (s : SignalCall) (msgs : List ResponseMessage) : SignalCall :=
  msgs.foldl (receive pf) s

section

variable (pf : Platform)

/-- The message is no hub error and its payload is JSON. -/
def accepted (msg : ResponseMessage) : Bool :=
  !msg.isHubError && (pf.fromString msg.getPayload pf.allSchema).isValid

/-- The payload is an object that says `returnValue` false. -/
def returnsFalse (msg : ResponseMessage) : Bool :=
  match (pf.fromString msg.getPayload pf.allSchema).members.lookup "returnValue" with
  | some (.bool false) => true
  | _ => false

/-- The reply to addmatch says that subscribing failed. -/
def subscribeFailed (msg : ResponseMessage) : Bool := !accepted pf msg || returnsFalse pf msg

/-- What the handler is to receive of the messages of the call. -/
def toDeliver : List ResponseMessage → List ResponseMessage
  | [] => []
  | msg :: msgs => if subscribeFailed pf msg then msg :: msgs else msgs

theorem isSuccess_eq_accepted (msg : ResponseMessage) :
    (handleLunaResponse pf pf.allSchema msg).isSuccess = accepted pf msg := by
  rw [Bool.eq_iff_iff, isSuccess_iff, accepted]
  simp

/-! ## What one response does -/

theorem receiveAll_cons (s : SignalCall) (msg : ResponseMessage) (msgs : List ResponseMessage) :
    receiveAll pf s (msg :: msgs) = receiveAll pf (receive pf s msg) msgs := rfl

theorem receive_lowered (ds : List JsonResponse) (msg : ResponseMessage) :
    receive pf ⟨false, ds⟩ msg = ⟨false, ds ++ [handleLunaResponse pf pf.allSchema msg]⟩ := rfl

/-- The response that lowers the flag is consumed. -/
theorem receive_accepted (ds : List JsonResponse) {msg : ResponseMessage}
    (h : accepted pf msg = true) : receive pf ⟨true, ds⟩ msg = ⟨false, ds⟩ := by
  simp [receive, wrapperFunc, isSuccess_eq_accepted, h]

theorem receive_not_accepted (ds : List JsonResponse) {msg : ResponseMessage}
    (h : accepted pf msg = false) :
    receive pf ⟨true, ds⟩ msg = ⟨true, ds ++ [handleLunaResponse pf pf.allSchema msg]⟩ := by
  simp [receive, wrapperFunc, isSuccess_eq_accepted, h]

/-! ## What a list of responses does -/

/-- Once the flag is down everything is passed on. -/
theorem receiveAll_of_lowered (ds : List JsonResponse) (msgs : List ResponseMessage) :
    receiveAll pf ⟨false, ds⟩ msgs =
      ⟨false, ds ++ msgs.map (handleLunaResponse pf pf.allSchema)⟩ := by
  induction msgs generalizing ds with
  | nil => simp [receiveAll]
  | cons msg msgs ih =>
      rw [receiveAll_cons, receive_lowered, ih, List.map_cons, List.append_assoc]
      rfl

/-- While the flag is up it takes a success to lower it. -/
theorem receiveAll_of_none_accepted (ds : List JsonResponse) {msgs : List ResponseMessage}
    (h : ∀ msg ∈ msgs, accepted pf msg = false) :
    receiveAll pf ⟨true, ds⟩ msgs =
      ⟨true, ds ++ msgs.map (handleLunaResponse pf pf.allSchema)⟩ := by
  induction msgs generalizing ds with
  | nil => simp [receiveAll]
  | cons msg msgs ih =>
      rw [List.forall_mem_cons] at h
      rw [receiveAll_cons, receive_not_accepted pf ds h.1, ih _ h.2, List.map_cons,
        List.append_assoc]
      rfl

/-- The success that lowers the flag is the one response that is lost. -/
theorem receiveAll_length (ds : List JsonResponse) {msgs : List ResponseMessage}
    (h : ∃ msg ∈ msgs, accepted pf msg = true) :
    (receiveAll pf ⟨true, ds⟩ msgs).delivered.length + 1 = ds.length + msgs.length := by
  induction msgs generalizing ds with
  | nil => simp at h
  | cons msg msgs ih =>
      cases haccepted : accepted pf msg with
      | true =>
          rw [receiveAll_cons, receive_accepted pf ds haccepted, receiveAll_of_lowered]
          simp
          omega
      | false =>
          have hrest : ∃ msg ∈ msgs, accepted pf msg = true := by simpa [haccepted] using h
          rw [receiveAll_cons, receive_not_accepted pf ds haccepted, ih _ hrest]
          simp
          omega

/-- The handler receives what it is to receive exactly when no response came, or the first
was accepted and does not say `returnValue` false, or none at all was accepted. -/
theorem delivered_iff (msgs : List ResponseMessage) :
    (receiveAll pf start msgs).delivered =
        (toDeliver pf msgs).map (handleLunaResponse pf pf.allSchema) ↔
      (∀ msg ∈ msgs.head?, accepted pf msg = true ∧ returnsFalse pf msg = false) ∨
        ∀ msg ∈ msgs, accepted pf msg = false := by
  cases msgs with
  | nil => simp [receiveAll, start, toDeliver]
  | cons msg msgs =>
      cases haccepted : accepted pf msg with
      | true =>
          rw [start, receiveAll_cons, receive_accepted pf [] haccepted, receiveAll_of_lowered]
          cases hfalse : returnsFalse pf msg with
          | true =>
              refine iff_of_false ?_ ?_
              · intro h
                have hlength := congrArg List.length h
                simp [toDeliver, subscribeFailed, hfalse] at hlength
              · simp [haccepted, hfalse]
          | false => simp [toDeliver, subscribeFailed, haccepted, hfalse]
      | false =>
          by_cases hnone : ∀ msg ∈ msgs, accepted pf msg = false
          · have hall : ∀ msg' ∈ msg :: msgs, accepted pf msg' = false :=
              List.forall_mem_cons.mpr ⟨haccepted, hnone⟩
            refine iff_of_true ?_ (.inr hall)
            rw [start, receiveAll_of_none_accepted pf [] hall]
            simp [toDeliver, subscribeFailed, haccepted]
          · have hsome : ∃ msg' ∈ msg :: msgs, accepted pf msg' = true := by
              simpa [haccepted] using hnone
            refine iff_of_false ?_ ?_
            · intro h
              have hlength := congrArg List.length h
              have hlost := receiveAll_length pf [] hsome
              simp only [start] at hlength
              simp [toDeliver, subscribeFailed, haccepted] at hlength hlost
              omega
            · simp [haccepted]
              simpa using hnone

end

/-- A hub error and a signal after it: the signal is lost. -/
theorem signal_lost :
    (receiveAll .ofEmptyObject start [⟨true, "\x7b\x7d"⟩, ⟨false, "\x7b\x7d"⟩]).delivered ≠
      (toDeliver .ofEmptyObject [⟨true, "\x7b\x7d"⟩, ⟨false, "\x7b\x7d"⟩]).map
        (handleLunaResponse .ofEmptyObject ()) := by
  intro h
  have hlength := congrArg List.length h
  exact absurd hlength (by decide)

end SignalCall

end LSHelpers
