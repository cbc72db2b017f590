import LSHelpers.Text.Printf

/-!
# `vsnprintf` into memory

A buffer has bytes that were written and bytes that were not; reading one of the latter, or
past the end, has no result, and neither has writing past the end. A list of variadic
arguments is used up by the call that goes through it. What a format prints with its
arguments is a parameter.
-/

namespace Varargs

open Printf (intMax)

abbrev Buffer := List (Option UInt8)

/-- `new char[n]`. -/
def newChars (n : Nat) : Buffer := List.replicate n none

/-- Bytes written from the start of a buffer. -/
def store (buffer : Buffer) (bytes : List UInt8) : Option Buffer :=
  if bytes.length ≤ buffer.length then some (bytes.map some ++ buffer.drop bytes.length) else none

/-- The bytes before the first zero. -/
def readString : Buffer → Option (List UInt8)
  | [] => none
  | none :: _ => none
  | some c :: rest => if c = 0 then some [] else (readString rest).map fun text => c :: text

/-- The part of a text a C function sees. -/
def cString (text : List UInt8) : List UInt8 := text.takeWhile fun c => c != 0

theorem cString_of_not_mem {text : List UInt8} (h : 0 ∉ text) : cString text = text := by
  unfold cString
  rw [List.takeWhile_eq_self_iff]
  intro c hc
  rw [bne_iff_ne]
  exact ne_of_mem_of_not_mem hc h

theorem readString_terminated (text : List UInt8) (rest : Buffer) :
    readString ((text ++ [0]).map some ++ rest) = some (cString text) := by
  induction text with
  | nil => rfl
  | cons c text ih =>
      rw [List.cons_append, List.map_cons, List.cons_append, readString, ih]
      unfold cString
      rw [List.takeWhile_cons]
      by_cases hc : c = 0
      · simp [hc]
      · simp [hc]

section

variable {Arg : Type*}

/-- A `va_list`; `none` once a call has gone through it. -/
abbrev VaList (Arg : Type*) := Option (List Arg)

/-- What `vsnprintf` returns, and what it leaves of the buffer and of the arguments. -/
structure Printed (Arg : Type*) where
  returned : Int
  buffer : Buffer
  ap : VaList Arg

variable (expand : List UInt8 → List Arg → Option (List UInt8))

/-- `vsnprintf(buffer, n, format, ap)`. A failure, of the format or because an `int` cannot say
the size, leaves nothing in the buffer that could be read. -/
def vsnprintf (buffer : Buffer) (n : Nat) (format : List UInt8) (ap : VaList Arg) :
    Option (Printed Arg) :=
  match ap with
  | none => none
  | some args =>
      match expand (cString format) args with
      | none => some ⟨-1, newChars buffer.length, none⟩
      | some out =>
          if out.length ≤ intMax then
            if n = 0 then some ⟨out.length, buffer, none⟩
            else (store buffer (out.take (n - 1) ++ [0])).map fun buffer =>
              ⟨out.length, buffer, none⟩
          else some ⟨-1, newChars buffer.length, none⟩

variable {expand}

/-- In a buffer of its own size everything fits, and what fits with the byte that ends it is
there as a whole. -/
theorem vsnprintf_newChars {format : List UInt8} {args : List Arg} {out : List UInt8}
    (h : expand (cString format) args = some out) (hsize : out.length ≤ intMax) (n : Nat) :
    ∃ printed, vsnprintf expand (newChars n) n format (some args) = some printed ∧
      printed.returned = out.length ∧
      (out.length < n → readString printed.buffer = some (cString out)) := by
  unfold vsnprintf
  dsimp only
  rw [h]
  dsimp only
  rw [if_pos hsize]
  by_cases hn : n = 0
  · rw [if_pos hn]
    exact ⟨_, rfl, rfl, fun hlt => absurd hlt (by omega)⟩
  · have hfits : (out.take (n - 1) ++ [0]).length ≤ (newChars n).length := by
      simp [newChars]
      omega
    rw [if_neg hn, store, if_pos hfits]
    refine ⟨_, rfl, rfl, ?_⟩
    intro hlt
    dsimp only
    rw [List.take_of_length_le (by omega), readString_terminated]

end

end Varargs
