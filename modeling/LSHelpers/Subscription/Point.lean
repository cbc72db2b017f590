import Mathlib.Data.List.Basic
import LSHelpers.Luna

/-!
# A subscription point and its surroundings

`Publisher` is a `SubscriptionPoint` together with what it has outside itself: the
items whose `addSubscription` has not reached the list yet, the cancel callbacks and
server-status watches registered on the bus, the posts the main loop has not
dispatched, and what has been sent. An item is known by its address; addresses are
handed out once.

`addSubscription` is two events, the making of the item and its insertion, so that
notifications can come between them.

There is one `queue` for all handles: those a point is given are taken to be attached to one
main loop, which dispatches the sources in the order they were attached.
-/

namespace LSHelpers

/-- A subscription, with the handle its `status` watches the sender on. -/
structure SubscriptionItem where
  address : Nat
  message : Message
  statusHandle : LSHandle
deriving Repr, DecidableEq

structure SubscriptionPoint where
  mServiceHandle : Option LSHandle
  mSubscriptions : List SubscriptionItem
  mDeduplicate : Bool
  mPreviousPayload : String
deriving Repr

structure PostData where
  payload : String
  messages : List Message
deriving Repr, DecidableEq

namespace SubscriptionPoint

/-- The tail of `post`: the messages of the moment are copied into a source. -/
def attach (p : SubscriptionPoint) (payload : String) : Bool × Option PostData × SubscriptionPoint :=
  (true, some ⟨payload, p.mSubscriptions.map SubscriptionItem.message⟩, p)

/-- `SubscriptionPoint::post`: what it returns, the source it attaches to the main
loop, and the object after it. -/
def post (p : SubscriptionPoint) (hasContext : Bool) (payload : String) :
    Bool × Option PostData × SubscriptionPoint :=
  if p.mServiceHandle.isNone then (false, none, p)
  else if !hasContext then (false, none, p)
  else if p.mDeduplicate then
    if payload == p.mPreviousPayload then (true, none, p)
    else { p with mPreviousPayload := payload }.attach payload
  else p.attach payload

end SubscriptionPoint

/-- What `LS::Message::respond` may throw. -/
inductive RespondError
  | lsError (message : String)
  | other
deriving Repr, DecidableEq

/-- A payload sent to a message, with the place of the message in its post. -/
structure Delivery where
  position : Nat
  message : Message
  payload : String
deriving Repr, DecidableEq

/-- The loop of `postSubscriptions` from a position on: what it sends, and what it
throws. `fails` says which positions cannot be responded to. -/
def respondAll (fails : Nat → Option RespondError) (payload : String) :
    Nat → List Message → List Delivery × Option RespondError
  | _, [] => ([], none)
  | i, m :: ms =>
      match fails i with
      | some e => ([], some e)
      | none =>
          let rest := respondAll fails payload (i + 1) ms
          (⟨i, m, payload⟩ :: rest.1, rest.2)

/-- What `postSubscriptions` does: what it sends, the error it logs, and whether the
source stays in the loop. -/
structure PostResult where
  sent : List Delivery
  logged : Option String
  keep : Bool
deriving Repr, DecidableEq

/-- `SubscriptionPoint::postSubscriptions`. -/
def postSubscriptions (fails : Nat → Option RespondError) (data : PostData) : PostResult :=
  let loop := respondAll fails data.payload 0 data.messages
  match loop.2 with
  | some (.lsError message) => ⟨loop.1, some message, false⟩
  | some .other | none => ⟨loop.1, none, false⟩

/-- Whatever fails, the source leaves the loop and nothing is thrown into it. -/
theorem postSubscriptions_keep (fails : Nat → Option RespondError) (data : PostData) :
    (postSubscriptions fails data).keep = false := by
  unfold postSubscriptions
  dsimp only
  split <;> rfl

/-- A server-status registration on the bus. -/
structure Watch where
  handle : LSHandle
  address : Nat
deriving Repr, DecidableEq

structure Publisher where
  point : Option SubscriptionPoint
  adding : List SubscriptionItem
  nextAddress : Nat
  cancelCallbacks : List LSHandle
  watches : List Watch
  queue : List PostData
  sent : List Delivery
deriving Repr

namespace Publisher

/-- What may happen to a subscription point. A status or cancel notification comes
from the bus, a dispatch from the main loop. -/
inductive Event
  | setServiceHandle (handle : Option LSHandle)
  | setDeduplicate (deduplicate : Bool)
  | createItem (message : Message) (registered : Bool)
  | insertItem (address : Nat)
  | post (payload : String) (hasContext : Bool)
  | subscriberCancel (sh : LSHandle) (uniqueToken : String)
  | subscriberStatus (address : Nat) (isUp : Bool)
  | dispatch (fails : Nat → Option RespondError)
  | destroy

/-- The items in the list; none once the object is gone. -/
def listed (s : Publisher) : List SubscriptionItem :=
  s.point.elim [] SubscriptionPoint.mSubscriptions

/-- `setServiceHandle`: the cancel callback moves from the old handle to the new one. -/
def setServiceHandle (s : Publisher) (p : SubscriptionPoint) (handle : Option LSHandle) :
    Publisher :=
  { s with
    point := some { p with mServiceHandle := handle }
    cancelCallbacks := s.cancelCallbacks.diff p.mServiceHandle.toList ++ handle.toList }

/-- The constructor. -/
def init (service : Option LSHandle) : Publisher :=
  setServiceHandle
    { point := none, adding := [], nextAddress := 0, cancelCallbacks := [], watches := [],
      queue := [], sent := [] }
    { mServiceHandle := none, mSubscriptions := [], mDeduplicate := false, mPreviousPayload := "" }
    service

/-- `addSubscription` up to the registration of the status watch. An item whose
registration fails is freed on the way out. -/
def createItem (s : Publisher) (p : SubscriptionPoint) (message : Message) (registered : Bool) :
    Publisher :=
  let s := if p.mServiceHandle.isNone then s.setServiceHandle p (some message.connection) else s
  let handle := p.mServiceHandle.getD message.connection
  if registered then
    { s with
      adding := s.adding ++ [⟨s.nextAddress, message, handle⟩]
      nextAddress := s.nextAddress + 1
      watches := s.watches ++ [⟨handle, s.nextAddress⟩] }
  else s

/-- The rest of `addSubscription`, for the item at an address. -/
def insertItem (s : Publisher) (p : SubscriptionPoint) (address : Nat) : Publisher :=
  match s.adding.find? fun item => item.address == address with
  | none => s
  | some item =>
      { s with
        point := some { p with mSubscriptions := p.mSubscriptions ++ [item] }
        adding := s.adding.erase item }

/-- `erase(find_if(…))` on the list. The destructor of the item cancels its watch. -/
def eraseIf (s : Publisher) (p : SubscriptionPoint) (which : SubscriptionItem → Bool) :
    Publisher :=
  match p.mSubscriptions.find? which with
  | none => s
  | some item =>
      { s with
        point := some { p with mSubscriptions := p.mSubscriptions.eraseP which }
        watches := s.watches.erase ⟨item.statusHandle, item.address⟩ }

/-- `subscriberCancelCB`. -/
def subscriberCancelCB (s : Publisher) (p : SubscriptionPoint) (uniqueToken : String) : Publisher :=
  s.eraseIf p fun item => uniqueToken == item.message.uniqueToken

/-- `subscriberStatusCB`. -/
def subscriberStatusCB (s : Publisher) (p : SubscriptionPoint) (address : Nat) (isUp : Bool) :
    Publisher :=
  if isUp then s else s.eraseIf p fun item => item.address == address

/-- The destructor, and with it those of the items in the list. -/
def destroy (s : Publisher) (p : SubscriptionPoint) : Publisher :=
  { s with
    point := none
    cancelCallbacks := s.cancelCallbacks.diff p.mServiceHandle.toList
    watches := s.watches.diff (p.mSubscriptions.map fun item => ⟨item.statusHandle, item.address⟩) }

/-- `post`, whose source goes to the end of the main loop's queue. -/
def post (s : Publisher) (p : SubscriptionPoint) (payload : String) (hasContext : Bool) :
    Publisher :=
  let (_, source, p) := p.post hasContext payload
  { s with point := some p, queue := s.queue ++ source.toList }

/-- A notification comes only where it is registered for, and the object is not
destroyed under a running `addSubscription`. -/
def enabled (s : Publisher) : Event → Bool
  | .insertItem address => s.adding.any fun item => item.address == address
  | .subscriberCancel sh _ => sh ∈ s.cancelCallbacks
  | .subscriberStatus address _ => s.watches.any fun w => w.address == address
  | .destroy => s.adding.isEmpty
  | _ => true

/-- What an event does through the object. -/
def effect (s : Publisher) (p : SubscriptionPoint) : Event → Publisher
  | .setServiceHandle handle => s.setServiceHandle p handle
  | .setDeduplicate deduplicate => { s with point := some { p with mDeduplicate := deduplicate } }
  | .createItem message registered => s.createItem p message registered
  | .insertItem address => s.insertItem p address
  | .post payload hasContext => s.post p payload hasContext
  | .subscriberCancel _ uniqueToken => s.subscriberCancelCB p uniqueToken
  | .subscriberStatus address isUp => s.subscriberStatusCB p address isUp
  | .dispatch _ => s
  | .destroy => s.destroy p

/-- One event. A dispatch needs no object: it takes the head of the queue, which leaves the
loop unless the callback asks to be kept. -/
def step (s : Publisher) : Event → Option Publisher
  | .dispatch fails =>
      match s.queue with
      | [] => none
      | data :: queue =>
          let result := postSubscriptions fails data
          some { s with
            queue := if result.keep then data :: queue else queue
            sent := s.sent ++ result.sent }
  | e => if s.enabled e then s.point.map fun p => s.effect p e else none

def Event.isDispatch : Event → Bool
  | .dispatch _ => true
  | _ => false

theorem step_cases {s t : Publisher} {e : Event} (h : step s e = some t) :
    (∃ fails data queue, e = .dispatch fails ∧ s.queue = data :: queue ∧
      t = { s with queue := queue, sent := s.sent ++ (postSubscriptions fails data).sent }) ∨
    (e.isDispatch = false ∧ s.enabled e = true ∧ ∃ p, s.point = some p ∧ t = s.effect p e) := by
  cases e with
  | dispatch fails =>
      simp only [step] at h
      split at h
      · cases h
      · rename_i data queue hqueue
        rw [postSubscriptions_keep] at h
        exact .inl ⟨fails, data, queue, rfl, hqueue, (Option.some.inj h).symm⟩
  | _ =>
      simp only [step] at h
      split at h
      · rename_i henabled
        rcases Option.map_eq_some_iff.mp h with ⟨p, hp, rfl⟩
        exact .inr ⟨rfl, henabled, p, hp, rfl⟩
      · cases h

/-- The source an event attaches to the main loop. -/
def queued (s : Publisher) : Event → Option PostData
  | .post payload hasContext => s.point.bind fun p => (p.post hasContext payload).2.1
  | _ => none

/-- The head of the queue is sent, or a source is attached at its end. -/
theorem step_queue {s t : Publisher} {e : Event} (h : step s e = some t) :
    (∃ fails data, e = .dispatch fails ∧ s.queue = data :: t.queue ∧
      t.sent = s.sent ++ (postSubscriptions fails data).sent) ∨
    (e.isDispatch = false ∧ t.queue = s.queue ++ (s.queued e).toList ∧ t.sent = s.sent) := by
  rcases step_cases h with ⟨fails, data, queue, rfl, hqueue, rfl⟩ | ⟨hother, _, p, hp, rfl⟩
  · exact .inl ⟨fails, data, rfl, hqueue, rfl⟩
  · refine .inr ⟨hother, ?_⟩
    cases e with
    | post payload hasContext => simp [effect, post, queued, hp]
    | createItem message registered =>
        simp only [effect, createItem]
        split <;> split <;> simp [setServiceHandle, queued]
    | insertItem address =>
        simp only [effect, insertItem]
        split <;> simp [queued]
    | subscriberCancel sh uniqueToken =>
        simp only [effect, subscriberCancelCB, eraseIf]
        split <;> simp [queued]
    | subscriberStatus address isUp =>
        simp only [effect, subscriberStatusCB, eraseIf]
        split
        · simp [queued]
        · split <;> simp [queued]
    | setServiceHandle | setDeduplicate | dispatch | destroy =>
        simp [effect, setServiceHandle, destroy, queued]

/-! ## What a step does to the items -/

/-- The message an event makes an item for. -/
def Event.added : Event → Option Message
  | .createItem message true => some message
  | _ => none

/-- What an event leaves of the items in the list. -/
def Event.keep (e : Event) (items : List SubscriptionItem) : List SubscriptionItem :=
  match e with
  | .subscriberCancel _ uniqueToken =>
      items.eraseP fun item => uniqueToken == item.message.uniqueToken
  | .subscriberStatus address false => items.eraseP fun item => item.address == address
  | .destroy => []
  | _ => items

theorem Event.keep_sublist (e : Event) (items : List SubscriptionItem) :
    (e.keep items).Sublist items := by
  unfold keep
  split
  · exact List.eraseP_sublist
  · exact List.eraseP_sublist
  · exact List.nil_sublist items
  · exact List.Sublist.refl items

theorem eraseIf_items (s : Publisher) {p : SubscriptionPoint} (hp : s.point = some p)
    (which : SubscriptionItem → Bool) :
    (s.eraseIf p which).listed = s.listed.eraseP which ∧ (s.eraseIf p which).adding = s.adding ∧
      (s.eraseIf p which).nextAddress = s.nextAddress := by
  unfold eraseIf
  cases hfind : p.mSubscriptions.find? which with
  | none =>
      have hkeep : p.mSubscriptions.eraseP which = p.mSubscriptions :=
        List.eraseP_of_forall_not (List.find?_eq_none.mp hfind)
      simp [listed, hp, hkeep]
  | some item => simp [listed, hp]

theorem createItem_items (s : Publisher) {p : SubscriptionPoint} (hp : s.point = some p)
    (message : Message) :
    let item : SubscriptionItem :=
      ⟨s.nextAddress, message, p.mServiceHandle.getD message.connection⟩
    (s.createItem p message true).listed = s.listed ∧
      (s.createItem p message true).adding = s.adding ++ [item] ∧
      (s.createItem p message true).nextAddress = s.nextAddress + 1 := by
  unfold createItem
  split <;> simp [listed, hp, setServiceHandle]

theorem post_listed (s : Publisher) {p : SubscriptionPoint} (hp : s.point = some p)
    (payload : String) (hasContext : Bool) : (s.post p payload hasContext).listed = s.listed := by
  simp only [post, listed, hp, Option.elim_some]
  unfold SubscriptionPoint.post SubscriptionPoint.attach
  split_ifs <;> rfl

/-- An event makes an item, moves one into the list, or leaves a part of the list. -/
theorem step_items {s t : Publisher} {e : Event} (h : step s e = some t) :
    (∃ message item, e = .createItem message true ∧ item.message = message ∧
      item.address = s.nextAddress ∧ t.listed = s.listed ∧ t.adding = s.adding ++ [item] ∧
      t.nextAddress = s.nextAddress + 1) ∨
    (∃ item ∈ s.adding, e = .insertItem item.address ∧ t.listed = s.listed ++ [item] ∧
      t.adding = s.adding.erase item ∧ t.nextAddress = s.nextAddress) ∨
    (e.added = none ∧ t.listed = e.keep s.listed ∧ t.adding = s.adding ∧
      t.nextAddress = s.nextAddress) := by
  rcases step_cases h with ⟨fails, data, queue, rfl, hqueue, rfl⟩ | ⟨_, henabled, p, hp, rfl⟩
  · exact .inr (.inr ⟨rfl, rfl, rfl, rfl⟩)
  · cases e with
    | createItem message registered =>
        cases registered with
        | false =>
            refine .inr (.inr ⟨rfl, ?_⟩)
            simp only [effect, createItem, Bool.false_eq_true, if_false]
            split <;> simp [listed, hp, setServiceHandle, Event.keep]
        | true => exact .inl ⟨message, _, rfl, rfl, rfl, s.createItem_items hp message⟩
    | insertItem address =>
        rcases List.any_eq_true.mp henabled with ⟨item, hitem, haddress⟩
        cases hfind : s.adding.find? fun item => item.address == address with
        | none => exact absurd haddress (List.find?_eq_none.mp hfind item hitem)
        | some found =>
            obtain rfl : found.address = address := by simpa using List.find?_some hfind
            exact .inr (.inl ⟨found, List.mem_of_find?_eq_some hfind, rfl,
              by simp [effect, insertItem, hfind, listed, hp]⟩)
    | subscriberCancel sh uniqueToken => exact .inr (.inr ⟨rfl, s.eraseIf_items hp _⟩)
    | subscriberStatus address isUp =>
        cases isUp with
        | false => exact .inr (.inr ⟨rfl, s.eraseIf_items hp _⟩)
        | true => exact .inr (.inr ⟨rfl, rfl, rfl, rfl⟩)
    | post payload hasContext =>
        exact .inr (.inr ⟨rfl, s.post_listed hp payload hasContext, rfl, rfl⟩)
    | dispatch fails | destroy => exact .inr (.inr ⟨rfl, rfl, rfl, rfl⟩)
    | setServiceHandle | setDeduplicate =>
        exact .inr (.inr ⟨rfl, by simp [effect, listed, hp, setServiceHandle, Event.keep], rfl, rfl⟩)

end Publisher

end LSHelpers
