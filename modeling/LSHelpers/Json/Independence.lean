import LSHelpers.Json.Requests

/-!
# Requests with variables of their own do not disturb each other

A request made alone is the request on a fresh parser of the same value. On any
other parser of that value it leaves the same in its variables, and what it would
have recorded alone goes behind the errors already there. Requests with no variable
in common are then operations with separate footprints.
-/

namespace LSHelpers

open Transition

variable {Var : Type} [DecidableEq Var] {Ty : Var → Type}

namespace Memory

theorem setFlags_frame (flags : List (Flag Ty)) (b : Bool) (m : Memory Ty) (v : Var)
    (h : ∀ flag ∈ flags, flag.var ≠ v) : m.setFlags flags b v = m v := by
  induction flags generalizing m with
  | nil => rfl
  | cons flag flags ih =>
      rw [List.forall_mem_cons] at h
      exact (ih (m.setFlag flag b) h.2).trans (Function.update_of_ne h.1.symm _ m)

/-- What the flags of a chain hold afterwards does not depend on the memory before. -/
theorem setFlags_eq (flags : List (Flag Ty)) (b : Bool) (m m' : Memory Ty) (v : Var)
    (h : ∃ flag ∈ flags, flag.var = v) : m.setFlags flags b v = m'.setFlags flags b v := by
  induction flags generalizing m m' with
  | nil => simp at h
  | cons flag flags ih =>
      by_cases hrest : ∃ flag ∈ flags, flag.var = v
      · exact ih (m.setFlag flag b) (m'.setFlag flag b) hrest
      · have hout : ∀ flag ∈ flags, flag.var ≠ v := by
          intro flag hflag heq
          exact hrest ⟨flag, hflag, heq⟩
        have hvar : flag.var = v := by
          rcases h with ⟨flag', hmem, hv⟩
          cases List.mem_cons.mp hmem with
          | inl heq => rw [← heq, hv]
          | inr hmem => exact absurd hv (hout flag' hmem)
        have hm := setFlags_frame flags b (m.setFlag flag b) v hout
        have hm' := setFlags_frame flags b (m'.setFlag flag b) v hout
        subst hvar
        refine hm.trans (Eq.trans ?_ hm'.symm)
        rw [Memory.setFlag, Memory.setFlag, Function.update_self, Function.update_self]

end Memory

namespace Request

variable (pf : Platform) (x : Json)

/-- The request on a fresh parser. -/
def alone (q : Request Ty) (m : Memory Ty) : JsonParser × Memory Ty :=
  q.run pf (.ofJson (.valid x), m)

/-- What the request records first when it is made alone. -/
def error (q : Request Ty) (m : Memory Ty) : String := (q.alone pf x m).1.parseError

/-- What the request leaves in the memory when it is made alone. -/
def write (q : Request Ty) (m : Memory Ty) : Memory Ty := (q.alone pf x m).2

theorem run_eq (q : Request Ty) {p : JsonParser} (hp : p.jsonValue = .valid x)
    (m : Memory Ty) :
    q.run pf (p, m) = (p.log (q.error pf x m) (foundFields x q.name), q.write pf x m) := by
  rcases q.run_effect pf x (m q.destination) with ⟨error, valueRead, d, h⟩
  have halone := h (.ofJson (.valid x)) m rfl rfl
  have herror : q.error pf x m = error := congrArg (fun r => r.1.parseError) halone
  have hwrite := congrArg Prod.snd halone
  rw [h p m hp rfl, herror]
  exact Prod.ext rfl hwrite.symm

theorem write_local (q : Request Ty) : Local q.written (q.write pf x) := by
  have hwrite : ∀ d, ∃ valueRead d', ∀ m : Memory Ty, m q.destination = d →
      q.write pf x m = Function.update (m.setFlags q.flags valueRead) q.destination d' := by
    intro d
    rcases q.run_effect pf x d with ⟨error, valueRead, d', h⟩
    exact ⟨valueRead, d', fun m hd => congrArg Prod.snd (h _ m rfl hd)⟩
  constructor
  · intro m v hv
    rcases hwrite (m q.destination) with ⟨valueRead, d', h⟩
    have hdest : v ≠ q.destination := fun heq => hv (.inl heq)
    rw [h m rfl, Function.update_of_ne hdest]
    exact Memory.setFlags_frame q.flags valueRead m v fun flag hflag heq =>
      hv (.inr ⟨flag, hflag, heq⟩)
  · intro v hv m m' hagree
    rcases hwrite (m q.destination) with ⟨valueRead, d', h⟩
    show q.write pf x m v = q.write pf x m' v
    rw [h m rfl, h m' (hagree q.destination (.inl rfl)).symm]
    by_cases hdest : v = q.destination
    · subst hdest
      rw [Function.update_self, Function.update_self]
    · rw [Function.update_of_ne hdest, Function.update_of_ne hdest]
      exact Memory.setFlags_eq q.flags valueRead m m' v (hv.resolve_left hdest)

theorem error_dependsOn (q : Request Ty) : DependsOn (q.error pf x) q.written := by
  intro m m' hagree
  rcases q.run_effect pf x (m q.destination) with ⟨error, valueRead, d, h⟩
  have hm := h (.ofJson (.valid x)) m rfl rfl
  have hm' := h (.ofJson (.valid x)) m' rfl (hagree q.destination (.inl rfl)).symm
  exact congrArg JsonParser.parseError
    ((congrArg Prod.fst hm).trans (congrArg Prod.fst hm').symm)

/-- The errors of the requests in program order, as each would record it alone. -/
def firstErrors (qs : List (Request Ty)) (m : Memory Ty) : String :=
  (qs.map fun q => q.error pf x m).foldr JsonParser.firstError ""

theorem runAll_eq (qs : List (Request Ty)) (hsep : Separate written qs) {p : JsonParser}
    (hp : p.jsonValue = .valid x) (m : Memory Ty) :
    runAll pf qs (p, m) =
      (p.log (firstErrors pf x qs m) (qs.map fun q => foundFields x q.name).sum,
        perform (write pf x) qs m) := by
  induction qs generalizing p m with
  | nil => exact Prod.ext p.log_empty.symm rfl
  | cons q qs ih =>
      have hcons := List.pairwise_cons.mp hsep
      have herrors : firstErrors pf x qs (q.write pf x m) = firstErrors pf x qs m := by
        unfold firstErrors
        congr 1
        apply List.map_congr_left
        intro q' hq'
        exact q'.error_dependsOn pf x
          (Local.agree (fun q => q.write_local pf x) (hcons.1 q' hq') m)
      have hrest := ih hcons.2 (p := p.log (q.error pf x m) (foundFields x q.name)) hp
        (q.write pf x m)
      simp only [runAll, List.foldl_cons, q.run_eq pf x hp] at hrest ⊢
      rw [hrest, herrors, JsonParser.log_log]
      simp only [firstErrors, perform, List.map_cons, List.foldr_cons, List.sum_cons]

/-- The final check of the request made alone fails. -/
def Fails (q : Request Ty) (m : Memory Ty) : Prop :=
  ((q.alone pf x m).1.finishParse false).2 = false

theorem fails_iff (q : Request Ty) (m : Memory Ty) :
    q.Fails pf x m ↔ q.error pf x m ≠ "" := by
  simp [Fails, JsonParser.finishParse, JsonParser.hasError, error]

theorem firstErrors_eq_empty_iff (qs : List (Request Ty)) (m : Memory Ty) :
    firstErrors pf x qs m = "" ↔ ∀ q ∈ qs, ¬ q.Fails pf x m := by
  induction qs with
  | nil => simp [firstErrors]
  | cons q qs ih =>
      rw [List.forall_mem_cons, ← ih, fails_iff, not_not]
      exact JsonParser.firstError_eq_empty_iff _ _

/-- Errors that are not there do not count. -/
theorem firstErrors_split (pre : List (Request Ty)) (q : Request Ty) (post : List (Request Ty))
    (m : Memory Ty) (hpre : ∀ r ∈ pre, ¬ r.Fails pf x m) (hq : q.Fails pf x m) :
    firstErrors pf x (pre ++ q :: post) m = q.error pf x m := by
  induction pre with
  | nil => exact if_neg ((q.fails_iff pf x m).mp hq)
  | cons r pre ih =>
      rw [List.forall_mem_cons] at hpre
      have hr : r.error pf x m = "" := not_not.mp ((r.fails_iff pf x m).not.mp hpre.1)
      refine Eq.trans ?_ (ih hpre.2)
      show JsonParser.firstError (r.error pf x m) _ = _
      rw [hr]
      rfl

/-- What a list of requests leaves on a fresh parser, compared with the requests alone. -/
structure Independent (qs : List (Request Ty)) (m : Memory Ty) : Prop where
  memory : ∀ q ∈ qs, ∀ v ∈ q.written,
    (runAll pf qs (.ofJson (.valid x), m)).2 v = (q.alone pf x m).2 v
  finishParse : ((runAll pf qs (.ofJson (.valid x), m)).1.finishParse false).2 = false ↔
    ∃ q ∈ qs, q.Fails pf x m
  getError : ∀ pre q post, qs = pre ++ q :: post → (∀ r ∈ pre, ¬ r.Fails pf x m) →
    q.Fails pf x m →
    (runAll pf qs (.ofJson (.valid x), m)).1.parseError = (q.alone pf x m).1.parseError
  order : ∀ qs', qs.Perm qs' →
    (runAll pf qs' (.ofJson (.valid x), m)).2 = (runAll pf qs (.ofJson (.valid x), m)).2 ∧
    ((runAll pf qs' (.ofJson (.valid x), m)).1.finishParse false).2 =
      ((runAll pf qs (.ofJson (.valid x), m)).1.finishParse false).2

theorem runAll_finishParse (qs : List (Request Ty)) (hsep : Separate written qs)
    (m : Memory Ty) :
    ((runAll pf qs (.ofJson (.valid x), m)).1.finishParse false).2 = false ↔
      ∃ q ∈ qs, q.Fails pf x m := by
  have hlog : (runAll pf qs (.ofJson (.valid x), m)).1.hasError = false ↔
      firstErrors pf x qs m = "" := by
    rw [runAll_eq pf x qs hsep rfl, JsonParser.log_hasError]
    simp
  have hfinish : ((runAll pf qs (.ofJson (.valid x), m)).1.finishParse false).2 = false ↔
      ¬ (runAll pf qs (.ofJson (.valid x), m)).1.hasError = false := by
    simp [JsonParser.finishParse]
  rw [hfinish, hlog, firstErrors_eq_empty_iff]
  simp only [not_forall, not_not, exists_prop]

theorem requests_independent (qs : List (Request Ty)) (m : Memory Ty)
    (hsep : Separate written qs) : Independent pf x qs m where
  memory q hq v hv := by
    rw [runAll_eq pf x qs hsep rfl]
    exact perform_eq (fun q => q.write_local pf x) m hsep hq hv
  finishParse := runAll_finishParse pf x qs hsep m
  getError pre q post hsplit hpre hq := by
    rw [runAll_eq pf x qs hsep rfl, hsplit]
    exact firstErrors_split pf x pre q post m hpre hq
  order qs' hperm := by
    have hsep' := hsep.perm hperm
    have hiff : (∃ q ∈ qs', q.Fails pf x m) ↔ ∃ q ∈ qs, q.Fails pf x m := by
      simp only [hperm.mem_iff]
    constructor
    · rw [runAll_eq pf x qs hsep rfl, runAll_eq pf x qs' hsep' rfl]
      exact (perform_perm (fun q => q.write_local pf x) m hsep hperm).symm
    · rw [Bool.eq_iff_iff, ← not_iff_not, Bool.not_eq_true, Bool.not_eq_true,
        runAll_finishParse pf x qs hsep m, runAll_finishParse pf x qs' hsep' m, hiff]

/-- A mandatory `bool` field read into one variable and its flag into another. -/
def readBool (destination flag : Nat) (name : String) : Request (fun _ : Nat => Bool) :=
  ⟨destination, .get (JsonParser.parseValueBool pf), name, [.checkValueRead ⟨flag, rfl⟩]⟩

theorem mem_written_readBool (destination flag : Nat) (name : String) (v : Nat) :
    v ∈ (readBool pf destination flag name).written ↔ v = destination ∨ flag = v := by
  show v = destination ∨ (∃ f ∈ [(⟨flag, rfl⟩ : Flag fun _ : Nat => Bool)], f.var = v) ↔ _
  simp

theorem requests_independent_of_two :
    Independent .ofEmptyObject (.object [("a", .bool true)])
      [readBool .ofEmptyObject 0 1 "a", readBool .ofEmptyObject 2 3 "b"]
      fun _ => false := by
  apply requests_independent
  refine List.pairwise_pair.mpr (Set.disjoint_left.mpr ?_)
  intro v hv hv'
  rw [mem_written_readBool] at hv hv'
  omega

end Request

end LSHelpers
