import LSHelpers.Luna
import LSHelpers.Request.Exchange
import LSHelpers.Transition.Run
import Mathlib.Logic.Function.Basic

/-!
# Methods registered by service points

A `MethodOwner` is a `ServicePoint` as far as its methods go. Each `MethodInfo` is an
object of its own, owned by the service point, and the method table of a bus handle
has its address as the context of the entry. The registry holds the service points,
the objects that exist and the method tables of all handles. Objects are made at any
address where none is, so that the address of a deleted object may come back.

Whether an entry that replaces another keeps the context of the old one is left open.
-/

namespace LSHelpers

/-- What the bus finds an entry by. -/
structure MethodKey where
  handle : LSHandle
  category : String
  method : String
deriving Repr, DecidableEq

inductive LSMethodFunction
  | methodHandler
  | removedMethodHandler
deriving Repr, DecidableEq

structure MethodEntry where
  function : LSMethodFunction
  context : Option Nat
deriving Repr, DecidableEq

structure MethodInfo (pf : Platform) where
  address : Nat
  service : Nat
  handler : Handler
  schema : pf.JSchema
  category : String
  method : String

structure MethodOwner (pf : Platform) where
  mHandle : Option LSHandle
  mMethods : List (MethodInfo pf)

/-- What `registerMethod` throws. -/
inductive RegisterError
  | lsError (message : String)
  | logicError (message : String)
deriving Repr, DecidableEq

abbrev MethodTable := MethodKey → Option MethodEntry

structure Registry (pf : Platform) where
  points : Nat → Option (MethodOwner pf)
  heap : Nat → Option (MethodInfo pf)
  table : MethodTable

namespace MethodTable

def registerCategoryAppend (keepsContext : Bool) (table : MethodTable) (key : MethodKey)
    (function : LSMethodFunction) : MethodTable :=
  Function.update table key
    (some ⟨function, if keepsContext then (table key).bind MethodEntry.context else none⟩)

def setMethodData (table : MethodTable) (key : MethodKey) (context : Option Nat) : MethodTable :=
  Function.update table key ((table key).map fun e => { e with context })

end MethodTable

/-- The key of a method on the handle of its service point. -/
def MethodInfo.key {pf : Platform} (info : MethodInfo pf) (handle : LSHandle) : MethodKey :=
  ⟨handle, info.category, info.method⟩

/-- The checks at the top of `registerMethod`, with the handle it goes on with. -/
def MethodOwner.check {pf : Platform} (p : MethodOwner pf) (category methodName : String) :
    Except RegisterError LSHandle :=
  match p.mHandle with
  | none => .error (.lsError "Service handle not set")
  | some handle =>
      if p.mMethods.any fun info => info.method == methodName && info.category == category then
        .error (.logicError ("Duplicate registration of method " ++ category ++ "/" ++ methodName))
      else if category.toList.head? != some '/' then
        .error (.lsError "Category empty or does not start with /")
      else if methodName.toList == [] || methodName.toList.contains '/' then
        .error (.lsError "Method name empty or contains /")
      else .ok handle

/-- The checks that `registerMethod`, `registerSignal` and `sendSignal` make of the names. -/
def checkNames (category methodName : String) : Except RegisterError Unit :=
  if category.toList.head? != some '/' then
    .error (.lsError "Category empty or does not start with /")
  else if methodName.toList == [] || methodName.toList.contains '/' then
    .error (.lsError "Method name empty or contains /")
  else .ok ()

theorem checkNames_ok_iff {category methodName : String} :
    checkNames category methodName = .ok () ↔
      category.toList.head? = some '/' ∧ methodName ≠ "" ∧ '/' ∉ methodName.toList := by
  unfold checkNames
  by_cases hcategory : category.toList.head? = some '/'
  · by_cases hempty : methodName = ""
    · simp [hcategory, hempty]
    · have hlist : methodName.toList ≠ [] := by simpa using hempty
      by_cases hslash : '/' ∈ methodName.toList
      · simp [hcategory, hslash]
      · simp [hcategory, hempty, hslash]
  · simp [hcategory]

/-- A method is accepted with the names a signal is accepted with, unless it is there. -/
theorem check_ok_iff {pf : Platform} {p : MethodOwner pf} {category methodName : String}
    {handle : LSHandle} :
    p.check category methodName = .ok handle ↔
      p.mHandle = some handle ∧
        (∀ info ∈ p.mMethods, ¬ (info.category = category ∧ info.method = methodName)) ∧
        checkNames category methodName = .ok () := by
  unfold MethodOwner.check
  cases hhandle : p.mHandle with
  | none => simp
  | some handle' =>
      dsimp only
      split
      · next hdup =>
          rcases List.any_eq_true.mp hdup with ⟨info, hinfo, hsame⟩
          rw [Bool.and_eq_true, beq_iff_eq, beq_iff_eq] at hsame
          refine iff_of_false (by simp) ?_
          intro h
          exact h.2.1 info hinfo ⟨hsame.2, hsame.1⟩
      · next hdup =>
          have hfresh : ∀ info ∈ p.mMethods,
              ¬ (info.category = category ∧ info.method = methodName) := by
            intro info hinfo hsame
            apply hdup
            rw [List.any_eq_true]
            exact ⟨info, hinfo, by simp [hsame.1, hsame.2]⟩
          unfold checkNames
          split
          · simp
          · split
            · simp
            · simp only [Except.ok.injEq, Option.some.injEq, and_true]
              exact ⟨fun h => ⟨h, hfresh⟩, fun h => h.1⟩

namespace Registry

variable {pf : Platform}

def init (pf : Platform) : Registry pf := ⟨fun _ => none, fun _ => none, fun _ => none⟩

/-- `registerMethodImpl`. The two bus calls throw what `append` and `data` say. -/
def registerMethodImpl (keepsContext : Bool) (s : Registry pf) (handle : LSHandle)
    (info : MethodInfo pf) (append data : Option String) :
    Except RegisterError Unit × Registry pf :=
  match append with
  | some message => (.error (.lsError message), s)
  | none =>
      let table := s.table.registerCategoryAppend keepsContext (info.key handle) .methodHandler
      match data with
      | some message => (.error (.lsError message), { s with table })
      | none =>
          (.ok (), { s with table := table.setMethodData (info.key handle) (some info.address) })

def unregisterMethodImpl (keepsContext : Bool) (handle : LSHandle) (table : MethodTable)
    (info : MethodInfo pf) : MethodTable :=
  (table.registerCategoryAppend keepsContext (info.key handle) .removedMethodHandler).setMethodData
    (info.key handle) none

/-- `registerMethod` of the service point `p` at `point`. The object is deleted when the
bus calls throw, and kept by the service point otherwise. -/
def registerMethod (keepsContext : Bool) (s : Registry pf) (point : Nat) (p : MethodOwner pf)
    (info : MethodInfo pf) (append data : Option String) :
    Except RegisterError Unit × Registry pf :=
  match p.check info.category info.method with
  | .error e => (.error e, s)
  | .ok handle =>
      match s.registerMethodImpl keepsContext handle info append data with
      | (.error e, s) => (.error e, s)
      | (.ok (), s) =>
          (.ok (), { s with
            points := Function.update s.points point
              (some { p with mMethods := p.mMethods ++ [info] })
            heap := Function.update s.heap info.address (some info) })

/-- `~ServicePoint`, as far as methods go. A service point without a handle has none. -/
def destroy (keepsContext : Bool) (s : Registry pf) (point : Nat) (p : MethodOwner pf) :
    Registry pf where
  points := Function.update s.points point none
  heap address := if p.mMethods.any fun info => info.address == address then none else s.heap address
  table :=
    match p.mHandle with
    | some handle => p.mMethods.foldl (unregisterMethodImpl keepsContext handle) s.table
    | none => s.table

inductive Event (pf : Platform)
  | create (point : Nat) (handle : Option LSHandle)
  | registerMethod (point : Nat) (category methodName : String) (handler : Handler)
      (schema : pf.JSchema) (address : Nat) (append data : Option String)
  | destroy (point : Nat)

def step (keepsContext : Bool) (s : Registry pf) : Event pf → Option (Registry pf)
  | .create point handle =>
      match s.points point with
      | some _ => none
      | none => some { s with points := Function.update s.points point (some ⟨handle, []⟩) }
  | .registerMethod point category methodName handler schema address append data =>
      match s.points point, s.heap address with
      | some p, none =>
          some (s.registerMethod keepsContext point p
            ⟨address, point, handler, schema, category, methodName⟩ append data).2
      | _, _ => none
  | .destroy point => (s.points point).map fun p => s.destroy keepsContext point p

/-! ## Dispatch -/

/-- What the bus does with a message for a key. `dangling` is the use of an object that
does not exist. -/
inductive Dispatch (pf : Platform)
  | unknownMethod
  | removed
  | noHandler
  | dangling
  | handled (info : MethodInfo pf)

/-- Whom a message reaches: the entry's function, and for `methodHandler` the object at
its context. -/
def dispatch (s : Registry pf) (key : MethodKey) : Dispatch pf :=
  match s.table key with
  | none => .unknownMethod
  | some ⟨.removedMethodHandler, _⟩ => .removed
  | some ⟨.methodHandler, none⟩ => .noHandler
  | some ⟨.methodHandler, some address⟩ =>
      match s.heap address with
      | none => .dangling
      | some info => .handled info

/-- The canned response. -/
def removedMethodHandler (pf : Platform) (b : Bus) : Exchange :=
  match Exchange.arrived.send b .errorReply (errorResponse pf 5 "Method is removed") with
  | (.ok (), s) => { s with phase := .finished (.ok true) }
  | (.error _, s) => { s with phase := .finished (.ok false) }

end Registry

end LSHelpers
