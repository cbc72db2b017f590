import LSHelpers.Method.Registry
import LSHelpers.Text.Cut

/-!
# Signals of a service point

A signal is registered and sent under the names that a method could have. The URI of a
signal is a plain concatenation: the category may have slashes wherever it likes, the
method has none, so the last slash of the URI is the one between them.
-/

namespace LSHelpers

/-- A signal the bus is asked to register. -/
structure LSSignal where
  handle : LSHandle
  category : String
  method : String
deriving Repr, DecidableEq

/-- What `LSSignalSend` is given. -/
structure SentSignal where
  handle : LSHandle
  uri : String
  payload : String
deriving Repr, DecidableEq

/-- With the signal the bus was asked for, if it came that far. The bus call throws what
`append` says. -/
def registerSignal (mHandle : Option LSHandle) (category methodName : String)
    (append : Option String) : Except RegisterError Unit × Option LSSignal :=
  match mHandle with
  | none => (.error (.lsError "Service handle not set"), none)
  | some handle =>
      match checkNames category methodName with
      | .error e => (.error e, none)
      | .ok () =>
          match append with
          | some message => (.error (.lsError message), some ⟨handle, category, methodName⟩)
          | none => (.ok (), some ⟨handle, category, methodName⟩)

def uriPrefix : String := "luna://com.bogusuri"

def signalUri (category method : String) : String := uriPrefix ++ category ++ "/" ++ method

/-- With the signal that was given to the bus, if it came that far. The bus fails with what
`send` says. -/
def sendSignal (stringify : JValue → String) (mHandle : Option LSHandle)
    (category method : String) (payload : JValue) (send : Option String) :
    Except RegisterError Unit × Option SentSignal :=
  match mHandle with
  | none => (.error (.lsError "Service handle not set"), none)
  | some handle =>
      match checkNames category method with
      | .error e => (.error e, none)
      | .ok () =>
          let signal := ⟨handle, signalUri category method, stringify payload⟩
          match send with
          | some message => (.error (.lsError message), some signal)
          | none => (.ok (), some signal)

/-- A URI without the fixed prefix, split at the last slash. -/
def splitUri (uri : String) : Option (String × String) :=
  if uriPrefix.toList <+: uri.toList then
    (Cut.splitLast '/' (uri.toList.drop uriPrefix.toList.length)).map fun parts =>
      (String.ofList parts.1, String.ofList parts.2)
  else none

/-! ## The URI -/

theorem splitUri_signalUri {category method : String}
    (h : checkNames category method = .ok ()) :
    splitUri (signalUri category method) = some (category, method) := by
  have hslash := (checkNames_ok_iff.mp h).2.2
  have hlist : (signalUri category method).toList =
      uriPrefix.toList ++ (category.toList ++ '/' :: method.toList) := by
    simp [signalUri]
  unfold splitUri
  rw [hlist, if_pos (List.prefix_append _ _), List.drop_left,
    Cut.splitLast_append category.toList hslash]
  simp

/-- What is sent has the URI of its names, and names that are accepted. -/
theorem sendSignal_some_iff {stringify : JValue → String} {mHandle : Option LSHandle}
    {category method : String} {payload : JValue} {send : Option String} {signal : SentSignal} :
    (sendSignal stringify mHandle category method payload send).2 = some signal ↔
      mHandle = some signal.handle ∧ checkNames category method = .ok () ∧
        signal = ⟨signal.handle, signalUri category method, stringify payload⟩ := by
  unfold sendSignal
  cases mHandle with
  | none => simp
  | some handle =>
      cases hnames : checkNames category method with
      | error e => simp
      | ok =>
          have hsent : (some (⟨handle, signalUri category method, stringify payload⟩ : SentSignal) =
              some signal) ↔ some handle = some signal.handle ∧
                signal = ⟨signal.handle, signalUri category method, stringify payload⟩ := by
            constructor
            · intro h
              obtain rfl := Option.some.inj h
              exact ⟨rfl, rfl⟩
            · intro h
              rw [h.2, Option.some.inj h.1]
          cases send <;> simpa using hsent

/-- The three checks of names are the same: a signal is registered, is sent, and a method
that is not there is accepted, for the same names. -/
theorem names_accepted_iff {pf : Platform} (stringify : JValue → String) (handle : LSHandle)
    (category methodName : String) (payload : JValue) :
    ((sendSignal stringify (some handle) category methodName payload none).1 = .ok () ↔
        checkNames category methodName = .ok ()) ∧
      ((registerSignal (some handle) category methodName none).1 = .ok () ↔
        checkNames category methodName = .ok ()) ∧
      ((⟨some handle, []⟩ : MethodOwner pf).check category methodName = .ok handle ↔
        checkNames category methodName = .ok ()) := by
  refine ⟨?_, ?_, ?_⟩
  · cases hnames : checkNames category methodName with
    | error e => simp [sendSignal, hnames]
    | ok => simp [sendSignal, hnames]
  · cases hnames : checkNames category methodName with
    | error e => simp [registerSignal, hnames]
    | ok => simp [registerSignal, hnames]
  · rw [check_ok_iff]
    simp

/-- Names that are accepted are sent under a URI that determines them. -/
theorem sendSignal_uri {category method : String} (h : checkNames category method = .ok ())
    (stringify : JValue → String) (handle : LSHandle) (payload : JValue) (send : Option String) :
    ∃ signal, (sendSignal stringify (some handle) category method payload send).2 = some signal ∧
      splitUri signal.uri = some (category, method) ∧
      ∀ category' method', checkNames category' method' = .ok () →
        (category', method') ≠ (category, method) →
        ∀ stringify' mHandle' payload' send' signal',
          (sendSignal stringify' mHandle' category' method' payload' send').2 = some signal' →
          signal'.uri ≠ signal.uri := by
  refine ⟨⟨handle, signalUri category method, stringify payload⟩,
    sendSignal_some_iff.mpr ⟨rfl, h, rfl⟩, splitUri_signalUri h, ?_⟩
  intro category' method' h' hne stringify' mHandle' payload' send' signal' hsent heq
  have huri : signalUri category' method' = signalUri category method := by
    rw [(sendSignal_some_iff.mp hsent).2.2] at heq
    exact heq
  have hsplit := splitUri_signalUri h'
  rw [huri, splitUri_signalUri h] at hsplit
  exact hne (Option.some.inj hsplit).symm

/-- A category that ends in slashes. -/
theorem sendSignal_uri_slashes :
    ∃ signal, (sendSignal (fun _ => "") (some 1) "/a//" "m" .invalid none).2 = some signal ∧
      splitUri signal.uri = some ("/a//", "m") := by
  have hnames : checkNames "/a//" "m" = .ok () := by decide
  rcases sendSignal_uri hnames (fun _ => "") 1 .invalid none with ⟨signal, hsent, hsplit, _⟩
  exact ⟨signal, hsent, hsplit⟩

end LSHelpers
