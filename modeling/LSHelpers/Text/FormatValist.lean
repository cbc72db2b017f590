import LSHelpers.Request.ErrorText
import LSHelpers.Text.Varargs

/-!
# Formats with arguments

`string_format_valist` on memory and on any arguments. The first buffer is sized from the
format, and whether it was large enough is read off the count that `vsnprintf` returns; the
retry goes through a copy of the arguments, as the first pass has used up the list. On a text
without arguments it is the function of the error texts (`stringFormatValist_utf8`).
-/

namespace LSHelpers

namespace Bytes

open Printf (intMax toInt lt_of_lt_toInt)
open Varargs

variable {Arg : Type}

/-- `string_format_valist`, on the bytes of the format; `none` where its behaviour is
undefined. -/
def stringFormatValist (expand : List UInt8 → List Arg → Option (List UInt8)) (fmt : List UInt8)
    (ap : VaList Arg) : Option (List UInt8) := do
  let n := fmt.length * 2 % 18446744073709551616
  let apCopy := ap
  let first ← vsnprintf expand (newChars n) n fmt ap
  if first.returned < 0 ∨ first.returned ≥ toInt n then
    let n ← retrySize first.returned
    let second ← vsnprintf expand (newChars n) n fmt apCopy
    readString second.buffer
  else readString first.buffer

variable {expand : List UInt8 → List Arg → Option (List UInt8)}

/-- Whatever the size of the first buffer, the text is printed as far as a C string goes. -/
theorem stringFormatValist_eq {fmt : List UInt8} {args : List Arg} {out : List UInt8}
    (h : expand (cString fmt) args = some out) (hsize : out.length < intMax) :
    stringFormatValist expand fmt (some args) = some (cString out) := by
  have hprint := vsnprintf_newChars h (Nat.le_of_lt hsize)
  unfold stringFormatValist
  generalize fmt.length * 2 % 18446744073709551616 = n
  dsimp only
  rcases hprint n with ⟨first, hfirst, hcount, hread⟩
  rw [hfirst, Option.bind_eq_bind, Option.bind_some, hcount]
  by_cases hretry : (out.length : Int) < 0 ∨ (out.length : Int) ≥ toInt n
  · have hagain : retrySize (out.length : Int) = some (out.length + 1) := by
      simp [retrySize, hsize]
    rcases hprint (out.length + 1) with ⟨second, hsecond, _, hread'⟩
    rw [if_pos hretry, hagain, Option.bind_eq_bind, Option.bind_some, hsecond, Option.bind_some]
    exact hread' (Nat.lt_succ_self _)
  · have hfits := (lt_of_lt_toInt (Int.not_le.mp (not_or.mp hretry).2)).1
    rw [if_neg hretry]
    exact hread hfits

/-- Every text that an `int` can say the size of, with the byte that ends it, is returned
complete. -/
theorem stringFormatValist_complete {fmt : List UInt8} {args : List Arg} {out : List UInt8}
    (h : expand (cString fmt) args = some out) (hsize : out.length < intMax) (hnul : 0 ∉ out) :
    stringFormatValist expand fmt (some args) = some out := by
  rw [stringFormatValist_eq h hsize, cString_of_not_mem hnul]

/-- The conversions `%s` and `%%`. -/
def expandStrings : List UInt8 → List (List UInt8) → Option (List UInt8)
  | [], _ => some []
  | c :: rest, args =>
      if c = 37 then
        match rest, args with
        | 115 :: rest, arg :: args => (expandStrings rest args).map fun out => arg ++ out
        | 37 :: rest, args => (expandStrings rest args).map fun out => 37 :: out
        | _, _ => none
      else (expandStrings rest args).map fun out => c :: out

/-- The empty format, and `%s` with a text one byte shorter than twice the format, of just
that size, and longer. -/
theorem stringFormatValist_complete_strings :
    stringFormatValist expandStrings [] (some []) = some [] ∧
      stringFormatValist expandStrings [37, 115] (some [[97, 98, 99]]) = some [97, 98, 99] ∧
      stringFormatValist expandStrings [37, 115] (some [[97, 98, 99, 100]]) =
        some [97, 98, 99, 100] ∧
      stringFormatValist expandStrings [37, 115] (some [[97, 98, 99, 100, 101]]) =
        some [97, 98, 99, 100, 101] :=
  ⟨stringFormatValist_complete rfl (by decide) (by decide),
    stringFormatValist_complete rfl (by decide) (by decide),
    stringFormatValist_complete rfl (by decide) (by decide),
    stringFormatValist_complete rfl (by decide) (by decide)⟩

/-! ## Texts in UTF-8 -/

def utf8 (text : List Char) : List UInt8 := text.flatMap String.utf8EncodeChar

theorem length_utf8 (text : List Char) : (utf8 text).length = Printf.bytes text := by
  induction text with
  | nil => rfl
  | cons c text ih =>
      rw [utf8, List.flatMap_cons, List.length_append]
      unfold utf8 at ih
      rw [ih]
      simp [Printf.bytes]

/-- A zero byte comes from the character that has the number zero. -/
theorem zero_not_mem_utf8EncodeChar {c : Char} (h : c ≠ '\x00') :
    0 ∉ String.utf8EncodeChar c := by
  have hpos : c.val.toNat ≠ 0 := by
    intro hzero
    apply h
    apply Char.ext
    exact UInt32.toNat_inj.mp hzero
  have hbyte (n : Nat) (hn : n % 256 ≠ 0) : (0 : UInt8) ≠ UInt8.ofNat n := by
    intro heq
    apply hn
    have htoNat := congrArg UInt8.toNat heq
    simpa using htoNat.symm
  intro hmem
  unfold String.utf8EncodeChar at hmem
  dsimp only at hmem
  split_ifs at hmem with hone htwo hthree
  · exact hbyte _ (by omega) (List.mem_singleton.mp hmem)
  · simp only [List.mem_cons, List.not_mem_nil, or_false] at hmem
    rcases hmem with hlead | hnext
    · exact hbyte _ (by omega) hlead
    · exact hbyte _ (by omega) hnext
  · simp only [List.mem_cons, List.not_mem_nil, or_false] at hmem
    rcases hmem with hlead | hnext | hnext
    · exact hbyte _ (by omega) hlead
    · exact hbyte _ (by omega) hnext
    · exact hbyte _ (by omega) hnext
  · simp only [List.mem_cons, List.not_mem_nil, or_false] at hmem
    rcases hmem with hlead | hnext | hnext | hnext
    · exact hbyte _ (by omega) hlead
    · exact hbyte _ (by omega) hnext
    · exact hbyte _ (by omega) hnext
    · exact hbyte _ (by omega) hnext

theorem cString_utf8 (text : List Char) : cString (utf8 text) = utf8 (Printf.cString text) := by
  induction text with
  | nil => rfl
  | cons c text ih =>
      unfold cString utf8 Printf.cString at ih ⊢
      rw [List.flatMap_cons, List.takeWhile_cons]
      by_cases hc : c = '\x00'
      · subst hc
        rfl
      · have hbytes : ∀ x ∈ String.utf8EncodeChar c, (x != 0) = true := by
          intro x hx
          rw [bne_iff_ne]
          exact ne_of_mem_of_not_mem hx (zero_not_mem_utf8EncodeChar hc)
        rw [List.takeWhile_append_of_pos hbytes, ih, if_pos (bne_iff_ne.mpr hc), List.flatMap_cons]

/-- The model of the function on texts without arguments says the same. -/
theorem stringFormatValist_utf8
    (h : ∀ text out, Printf.expand text = some out → expand (utf8 text) [] = some (utf8 out))
    {fmt out : String} (hout : LSHelpers.stringFormatValist fmt = some out) :
    stringFormatValist expand (utf8 fmt.toList) (some []) = some (utf8 out.toList) := by
  rw [LSHelpers.stringFormatValist_eq, Option.bind_eq_some_iff] at hout
  rcases hout with ⟨printed, hprinted, hif⟩
  split at hif
  · next hsize =>
      obtain rfl := Option.some.inj hif
      have hnul : '\x00' ∉ printed := by
        intro hmem
        have hfmt := Printf.subset_of_expand hprinted hmem
        simpa using List.mem_takeWhile_imp hfmt
      have hexpand : expand (cString (utf8 fmt.toList)) [] = some (utf8 printed) := by
        rw [cString_utf8]
        exact h _ _ hprinted
      have hlength : (utf8 printed).length < intMax := by rwa [length_utf8]
      rw [stringFormatValist_eq hexpand hlength, cString_utf8, Printf.cString_of_not_mem hnul,
        String.toList_ofList]
  · cases hif

end Bytes

end LSHelpers
