import LSHelpers.Status.Outstanding
import LSHelpers.Text.Cut

/-!
# The service name in a URI

`subscribe` looks for `"://"` and for the first slash after it, computes the second
offset before it checks the first result, and takes what is in between. The length of a
`std::string` is below `npos`, so the arithmetic of `size_t` agrees with that of the
numbers wherever it is used.
-/

namespace LSHelpers

open Cut

/-- The URI is `scheme`, the first `"://"`, the service name, a slash and the rest. -/
structure IsServiceUri (uri scheme service path : List Char) : Prop where
  eq : uri = scheme ++ "://".toList ++ service ++ '/' :: path
  first : FirstAt "://".toList uri scheme.length
  noSlash : '/' ∉ service

/-! ## The search -/

theorem findIn_eq_some_iff (pattern l : List Char) (i k : Nat) :
    findIn pattern l i = some k ↔ ∃ j, FirstAt pattern l j ∧ k = i + j := by
  induction l generalizing i with
  | nil =>
      unfold findIn
      cases pattern with
      | nil =>
          rw [List.isEmpty_nil, if_pos rfl, Option.some.injEq]
          constructor
          · intro h
            exact ⟨0, firstAt_zero_iff.mpr List.prefix_rfl, by omega⟩
          · intro h
            rcases h with ⟨j, hj, rfl⟩
            have hzero : FirstAt ([] : List Char) [] 0 := firstAt_zero_iff.mpr List.prefix_rfl
            rw [hj.unique hzero]
            rfl
      | cons c cs =>
          rw [List.isEmpty_cons, if_neg Bool.false_ne_true]
          refine iff_of_false (by simp) ?_
          intro h
          rcases h with ⟨j, hj, _⟩
          have hle := hj.here.length_le
          simp at hle
  | cons c l ih =>
      unfold findIn
      by_cases hhere : pattern <+: c :: l
      · rw [if_pos (List.isPrefixOf_iff_prefix.mpr hhere), Option.some.injEq]
        have hzero := firstAt_zero_iff.mpr hhere
        constructor
        · intro h
          exact ⟨0, hzero, by omega⟩
        · intro h
          rcases h with ⟨j, hj, rfl⟩
          rw [hj.unique hzero]
          rfl
      · rw [if_neg (fun h => hhere (List.isPrefixOf_iff_prefix.mp h)), ih]
        constructor
        · intro h
          rcases h with ⟨j, hj, rfl⟩
          exact ⟨j + 1, firstAt_succ_iff.mpr ⟨hhere, hj⟩, by omega⟩
        · intro h
          rcases h with ⟨j, hj, rfl⟩
          cases j with
          | zero => exact absurd (firstAt_zero_iff.mp hj) hhere
          | succ j => exact ⟨j, (firstAt_succ_iff.mp hj).2, by omega⟩

/-- A pattern that is found, from a place inside the text. -/
theorem find_of_firstAt {s pattern : List Char} {pos j : Nat} (hpos : pos ≤ s.length)
    (h : FirstAt pattern (s.drop pos) j) : find s pattern pos = pos + j := by
  have hfound := (findIn_eq_some_iff pattern (s.drop pos) pos (pos + j)).mpr ⟨j, h, rfl⟩
  rw [find, if_pos hpos, hfound]
  rfl

theorem find_ne_npos {s pattern : List Char} {pos : Nat} (h : find s pattern pos ≠ npos) :
    pos ≤ s.length ∧ ∃ j, FirstAt pattern (s.drop pos) j ∧ find s pattern pos = pos + j := by
  unfold find at h ⊢
  by_cases hpos : pos ≤ s.length
  · rw [if_pos hpos] at h ⊢
    cases hfound : findIn pattern (s.drop pos) pos with
    | none =>
        rw [hfound] at h
        exact absurd rfl h
    | some k =>
        rcases (findIn_eq_some_iff _ _ _ _).mp hfound with ⟨j, hj, rfl⟩
        exact ⟨hpos, j, hj, rfl⟩
  · rw [if_neg hpos] at h
    exact absurd rfl h

theorem sizeT_natCast {n : Nat} (h : n < UInt64.size) : sizeT n = n := by
  unfold sizeT
  rw [← Int.natCast_emod, Int.toNat_natCast, Nat.mod_eq_of_lt h]

/-! ## The two offsets -/

/-- The results of the searches, and the arguments of `substr`, with nothing wrapped. -/
structure Offsets (uri scheme service : List Char) : Prop where
  first : find uri "://".toList 0 = scheme.length
  start : sizeT (find uri "://".toList 0 + 3) = scheme.length + 3
  second : find uri "/".toList (sizeT (find uri "://".toList 0 + 3)) =
    scheme.length + 3 + service.length
  count : sizeT (find uri "/".toList (sizeT (find uri "://".toList 0 + 3)) -
    find uri "://".toList 0 - 3) = service.length
  inside : scheme.length + 3 + service.length < uri.length

theorem IsServiceUri.drop {uri scheme service path : List Char}
    (h : IsServiceUri uri scheme service path) :
    uri.drop (scheme.length + 3) = service ++ '/' :: path := by
  have hlength : (scheme ++ "://".toList).length = scheme.length + 3 := by simp
  rw [h.eq, ← hlength, List.append_assoc, List.drop_left]

theorem IsServiceUri.offsets {uri scheme service path : List Char}
    (h : IsServiceUri uri scheme service path) (hlen : uri.length < npos) :
    Offsets uri scheme service := by
  have hinside : scheme.length + 3 + service.length < uri.length := by
    have hlength := congrArg List.length h.eq
    simp at hlength
    omega
  have hsize : npos + 1 = UInt64.size := rfl
  have hfirst : find uri "://".toList 0 = scheme.length := by
    have hfound := find_of_firstAt (Nat.zero_le uri.length) (j := scheme.length)
      (by rw [List.drop_zero]; exact h.first)
    rw [hfound, Nat.zero_add]
  have hstart : sizeT (find uri "://".toList 0 + 3) = scheme.length + 3 := by
    rw [hfirst]
    exact sizeT_natCast (n := scheme.length + 3) (by omega)
  have hsecond : find uri "/".toList (sizeT (find uri "://".toList 0 + 3)) =
      scheme.length + 3 + service.length := by
    rw [hstart]
    apply find_of_firstAt (by omega)
    rw [h.drop]
    exact firstAt_singleton h.noSlash path
  refine ⟨hfirst, hstart, hsecond, ?_, hinside⟩
  rw [hsecond, hfirst]
  have hcount : ((scheme.length + 3 + service.length : Nat) : Int) - scheme.length - 3 =
      (service.length : Nat) := by omega
  rw [hcount]
  exact sizeT_natCast (by omega)

/-- Where both searches find something the URI has a service name. -/
theorem isServiceUri_of_find {uri : List Char} (hlen : uri.length < npos)
    (hfirst : find uri "://".toList 0 ≠ npos)
    (hsecond : find uri "/".toList (sizeT (find uri "://".toList 0 + 3)) ≠ npos) :
    ∃ scheme service path, IsServiceUri uri scheme service path := by
  rcases find_ne_npos hfirst with ⟨_, i, hi, hfind⟩
  rw [List.drop_zero] at hi
  rw [Nat.zero_add] at hfind
  have hle : i + 3 ≤ uri.length := hi.add_length_le (by decide)
  have hsize : npos + 1 = UInt64.size := rfl
  have hstart : sizeT (find uri "://".toList 0 + 3) = i + 3 := by
    rw [hfind]
    exact sizeT_natCast (n := i + 3) (by omega)
  rw [hstart] at hsecond
  rcases find_ne_npos hsecond with ⟨_, j, hj, _⟩
  have hslash : FirstAt ['/'] (uri.drop (i + 3)) j := hj
  rcases hslash.singleton_split with ⟨hsplit, hnoSlash⟩
  have htake : (uri.take i).length = i := by
    rw [List.length_take]
    omega
  refine ⟨uri.take i, (uri.drop (i + 3)).take j, (uri.drop (i + 3)).drop (j + 1), ?_, ?_, hnoSlash⟩
  · rw [List.append_assoc, ← hsplit]
    exact hi.split
  · rw [htake]
    exact hi

theorem serviceName_eq_ok_iff {uri : List Char} (hlen : uri.length < npos) (service : List Char) :
    serviceName uri = .ok service ↔ ∃ scheme path, IsServiceUri uri scheme service path := by
  have hname {scheme service path : List Char} (h : IsServiceUri uri scheme service path) :
      serviceName uri = .ok service := by
    have hoffsets := h.offsets hlen
    have hinside := hoffsets.inside
    have hfirst : (scheme.length == npos) = false := by
      rw [beq_eq_false_iff_ne]
      omega
    have hsecond : (scheme.length + 3 + service.length == npos) = false := by
      rw [beq_eq_false_iff_ne]
      omega
    unfold serviceName
    dsimp only
    rw [hoffsets.count, hoffsets.second, hoffsets.start, hoffsets.first, hfirst, hsecond,
      Bool.or_self, if_neg Bool.false_ne_true, substr, if_pos (by omega), h.drop, List.take_left]
  constructor
  · intro hok
    have hfound : find uri "://".toList 0 ≠ npos ∧
        find uri "/".toList (sizeT (find uri "://".toList 0 + 3)) ≠ npos := by
      unfold serviceName at hok
      dsimp only at hok
      split at hok
      · cases hok
      · rename_i hnot
        simpa [not_or] using hnot
    rcases isServiceUri_of_find hlen hfound.1 hfound.2 with ⟨scheme, service', path, h⟩
    rw [hname h] at hok
    cases hok
    exact ⟨scheme, path, h⟩
  · intro h
    rcases h with ⟨scheme, path, h⟩
    exact hname h

/-- Every other URI is refused, and `substr` throws for none. -/
theorem serviceName_cases {uri : List Char} (hlen : uri.length < npos) :
    (∃ service, serviceName uri = .ok service) ∨ serviceName uri = .error .invalidUri := by
  by_cases h : ∃ scheme service path, IsServiceUri uri scheme service path
  · rcases h with ⟨scheme, service, path, h⟩
    exact .inl ⟨service, (serviceName_eq_ok_iff hlen service).mpr ⟨scheme, path, h⟩⟩
  · right
    unfold serviceName
    dsimp only
    split
    · rfl
    · rename_i hfound
      have hfound' : find uri "://".toList 0 ≠ npos ∧
          find uri "/".toList (sizeT (find uri "://".toList 0 + 3)) ≠ npos := by
        simpa [not_or] using hfound
      exact absurd (isServiceUri_of_find hlen hfound'.1 hfound'.2) h

/-! ## The whole of `subscribe` -/

namespace Subscriber

/-- The number of the latest `subscribe` plays no part in a cancel. -/
theorem cancel_withSubscribes (s : Subscriber) (n : Nat) (cancelOk endsCall : Bool) :
    cancel { s with subscribes := n } cancelOk endsCall =
      ((s.cancel cancelOk endsCall).1, { (s.cancel cancelOk endsCall).2 with subscribes := n }) := by
  unfold Subscriber.cancel
  dsimp only
  rcases s.sub.mServiceStatus.cancel s.bus cancelOk with ⟨e | u, status, bus⟩
  · rfl
  · dsimp only
    unfold Subscriber.cancelSubscription lsCallCancel
    dsimp only
    split
    · split <;> rfl
    · rfl

/-- A cancel that goes through leaves no watch. -/
theorem cancel_ok_cookie {s t : Subscriber} {cancelOk endsCall : Bool}
    (h : s.cancel cancelOk endsCall = (.ok (), t)) : t.sub.mServiceStatus.mCookie = none := by
  have hkeep (u : Subscriber) :
      (u.cancelSubscription endsCall).sub.mServiceStatus = u.sub.mServiceStatus := by
    unfold Subscriber.cancelSubscription lsCallCancel
    split
    · dsimp only
      split <;> rfl
    · rfl
  unfold Subscriber.cancel at h
  dsimp only at h
  rcases s.sub.mServiceStatus.cancel_cases s.bus cancelOk with
    ⟨hcookie, hcancel⟩ | ⟨_, _, _, hcancel⟩ | ⟨_, _, hcancel⟩
  · rw [hcancel] at h
    rw [← (Prod.mk.inj h).2, hkeep]
    exact hcookie
  · rw [hcancel] at h
    rw [← (Prod.mk.inj h).2, hkeep]
  · rw [hcancel] at h
    cases (Prod.mk.inj h).1

/-- The registration is on the bus unless it fails, also where the callback throws. -/
theorem watch_of_no_cookie {s : Subscriber} (h : s.sub.mServiceStatus.mCookie = none)
    (handle : LSHandle) (name : List Char) (cancelOk : Bool) (registering : Registering) :
    ∃ status, (status.mCookie ≠ none → registering ≠ .failed) ∧
      s.watch handle name cancelOk registering = (registering.result, { s with
        sub := { s.sub with mServiceStatus := status }
        bus :=
          if registering = .failed then s.bus
          else s.bus.register handle name s.subscribes }) := by
  unfold watch ServerStatus.set ServerStatus.cancel
  rw [h]
  cases registering with
  | failed => exact ⟨_, by simp [h], rfl⟩
  | registered => exact ⟨_, by simp, rfl⟩
  | threw early =>
      exact ⟨_, by simp, congrArg (Prod.mk _) (onServiceStatusResponse_failed _ true)⟩

theorem subscribe_eq (pf : Platform) {s t : Subscriber} {cancelOk endsCall : Bool}
    (hcancel : s.cancel cancelOk endsCall = (.ok (), t)) (handle : LSHandle) (uri : String)
    {params : JValue} (hparams : params.isValid = true) (handler : Nat)
    (registering : Registering) :
    s.subscribe pf (some handle) uri params (some handler) cancelOk endsCall registering =
      let t := { t with subscribes := s.subscribes + 1 }
      match serviceName uri.toList with
      | .ok name => (t.prepared pf handle uri params handler).watch handle name cancelOk registering
      | .error .outOfRange => (.error .outOfRange, t.prepared pf handle uri params handler)
      | .error e => (.error e, t) := by
  unfold subscribe serviceName
  rw [cancel_withSubscribes, hcancel]
  simp only [hparams, Bool.not_true, Bool.false_eq_true, if_false]
  split
  · rfl
  · cases substr uri.toList _ _ <;> rfl

section

variable (pf : Platform) (s : Subscriber) (handle : LSHandle) (uri : String) (params : JValue)
  (handler : Nat) (cancelOk endsCall : Bool) (registering : Registering)

/-- What is asked of `subscribe` on a URI: it comes to the registration exactly when the URI
has a service name, and registers that name; it never starts or ends past the text. -/
structure TakesServiceName : Prop where
  accepts :
    (s.subscribe pf (some handle) uri params (some handler) cancelOk endsCall registering).1 =
        registering.result ↔
      ∃ scheme service path, IsServiceUri uri.toList scheme service path
  refuses :
    (s.subscribe pf (some handle) uri params (some handler) cancelOk endsCall registering).1 =
        .error .invalidUri ↔
      ¬ ∃ scheme service path, IsServiceUri uri.toList scheme service path
  noThrow :
    (s.subscribe pf (some handle) uri params (some handler) cancelOk endsCall registering).1 ≠
      .error .outOfRange
  watches : registering ≠ .failed →
    ∀ scheme service path, IsServiceUri uri.toList scheme service path →
      (s.subscribe pf (some handle) uri params (some handler) cancelOk endsCall
          registering).2.bus.registrations.map Registration.serviceName =
        (s.cancel cancelOk endsCall).2.bus.registrations.map Registration.serviceName ++ [service]
  offsets : ∀ scheme service path, IsServiceUri uri.toList scheme service path →
    Offsets uri.toList scheme service

/-- For every URI, where the arguments are valid and the cancel at the top goes through. -/
theorem takesServiceName (hcancel : (s.cancel cancelOk endsCall).1 = .ok ())
    (hparams : params.isValid = true) (hlen : uri.length < npos) :
    TakesServiceName pf s handle uri params handler cancelOk endsCall registering := by
  have hlen' : uri.toList.length < npos := by rwa [String.length_toList]
  cases hresult : s.cancel cancelOk endsCall with
  | mk result u =>
      obtain rfl : result = .ok () := by rwa [hresult] at hcancel
      have hcookie := cancel_ok_cookie hresult
      have hsubscribe := subscribe_eq pf hresult handle uri hparams handler registering
      have htaken {scheme service path : List Char}
          (h : IsServiceUri uri.toList scheme service path) :
          s.subscribe pf (some handle) uri params (some handler) cancelOk endsCall registering =
            (prepared pf { u with subscribes := s.subscribes + 1 } handle uri params handler).watch
              handle service cancelOk registering := by
        have hname := (serviceName_eq_ok_iff hlen' service).mpr ⟨scheme, path, h⟩
        rw [hsubscribe, hname]
      have hwatch (service : List Char) :
          let t := prepared pf { u with subscribes := s.subscribes + 1 } handle uri params handler
          let r := t.watch handle service cancelOk registering
          r.1 = registering.result ∧
            r.2.bus =
              if registering = .failed then t.bus
              else t.bus.register handle service t.subscribes := by
        dsimp only
        rcases watch_of_no_cookie
          (s := prepared pf { u with subscribes := s.subscribes + 1 } handle uri params handler)
          hcookie handle service cancelOk registering with ⟨status, _, hwatched⟩
        rw [hwatched]
        exact ⟨rfl, rfl⟩
      have hrefused (h : ¬ ∃ scheme service path, IsServiceUri uri.toList scheme service path) :
          (s.subscribe pf (some handle) uri params (some handler) cancelOk endsCall
            registering).1 = .error .invalidUri := by
        have hname : serviceName uri.toList = .error .invalidUri := by
          rcases serviceName_cases hlen' with ⟨service, hok⟩ | herror
          · rcases (serviceName_eq_ok_iff hlen' service).mp hok with ⟨scheme, path, huri⟩
            exact absurd ⟨scheme, service, path, huri⟩ h
          · exact herror
        rw [hsubscribe, hname]
      have hdiffer : registering.result ≠ .error .invalidUri := by
        cases registering <;> simp [Registering.result]
      refine ⟨⟨?_, ?_⟩, ⟨?_, hrefused⟩, ?_, ?_, fun _ _ _ h => h.offsets hlen'⟩
      · intro haccepted
        by_contra h
        exact hdiffer (haccepted.symm.trans (hrefused h))
      · intro h
        rcases h with ⟨scheme, service, path, h⟩
        rw [htaken h]
        exact (hwatch service).1
      · intro hinvalid h
        rcases h with ⟨scheme, service, path, h⟩
        rw [htaken h] at hinvalid
        exact hdiffer ((hwatch service).1.symm.trans hinvalid)
      · by_cases h : ∃ scheme service path, IsServiceUri uri.toList scheme service path
        · rcases h with ⟨scheme, service, path, h⟩
          rw [htaken h, (hwatch service).1]
          cases registering <;> simp [Registering.result]
        · rw [hrefused h]
          simp
      · intro hmade scheme service path h
        rw [htaken h, (hwatch service).2, if_neg hmade]
        simp [StatusBus.register, prepared, hresult]

end

/-- A URI with a second `"://"` and more than one slash. -/
theorem takesServiceName_luna :
    let uri := "luna://com.service/a://b/"
    TakesServiceName .ofEmptyObject init 1 uri (.valid (.object [])) 0 true true .registered ∧
      IsServiceUri uri.toList "luna".toList "com.service".toList "a://b/".toList := by
  have huri : IsServiceUri "luna://com.service/a://b/".toList "luna".toList "com.service".toList
      "a://b/".toList := ⟨by decide, ⟨by decide, by decide⟩, by decide⟩
  have hlen : "luna://com.service/a://b/".length < npos := by decide
  exact ⟨takesServiceName .ofEmptyObject init 1 _ (.valid (.object [])) 0 true true .registered
    rfl rfl hlen, huri⟩

end Subscriber

end LSHelpers
