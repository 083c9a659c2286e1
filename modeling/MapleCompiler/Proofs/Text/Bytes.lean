import Mathlib.Data.List.Induction
import MapleCompiler.Text.Span

/-!
# Places read off the bytes of a text

While a text is read, a `Position` is moved on character by character. A place
can also be read off the bytes of the text without reading it: `Position.inBytes`
counts the line feeds before an offset, and the bytes since the last of them.
The two agree at every character (`Position.after_eq_inBytes`), because a line
feed is a byte of its own and no byte of any other character
(`lineFeed_mem_utf8EncodeChar`).
-/

namespace MapleCompiler

/-- The bytes of a text, in UTF-8. -/
def bytesOf (text : String) : List UInt8 := text.toByteArray.data.toList

/-- The bytes of some characters. -/
def encode (cs : List Char) : List UInt8 := cs.flatMap String.utf8EncodeChar

/-- The byte that ends a line. -/
def lineFeed : UInt8 := '\n'.toUInt8

/-! ## Bytes of characters -/

theorem bytesOf_eq (text : String) : bytesOf text = encode text.toList := by
  have hofList (cs : List Char) : bytesOf (String.ofList cs) = encode cs := by
    rw [bytesOf, String.toByteArray_ofList, List.utf8Encode, List.data_toByteArray]
    rfl
  rw [← hofList, String.ofList_toList]

@[simp] theorem encode_nil : encode [] = [] := rfl

@[simp] theorem encode_cons (c : Char) (cs : List Char) :
    encode (c :: cs) = String.utf8EncodeChar c ++ encode cs := List.flatMap_cons

@[simp] theorem encode_append (cs rest : List Char) :
    encode (cs ++ rest) = encode cs ++ encode rest := List.flatMap_append

theorem length_bytesOf (text : String) : (bytesOf text).length = text.utf8ByteSize := by
  rw [bytesOf, Array.length_toList, ByteArray.size_data, String.size_toByteArray]

theorem utf8EncodeChar_of_le {c : Char} (h : c.val ≤ 127) :
    String.utf8EncodeChar c = [c.toUInt8] :=
  String.utf8EncodeChar_eq_singleton (Char.utf8Size_eq_one_iff.mpr h)

/-- **A line feed is a byte of no other character.** -/
theorem lineFeed_mem_utf8EncodeChar {c : Char} :
    lineFeed ∈ String.utf8EncodeChar c ↔ c = '\n' := by
  -- all bytes of a longer character are above 127
  have hbyte {n : Nat} (hlow : 128 ≤ n) (hhigh : n < 256) : lineFeed ≠ UInt8.ofNat n := by
    intro h
    have hn := congrArg UInt8.toNat h
    rw [UInt8.toNat_ofNat_of_lt' hhigh] at hn
    have : lineFeed.toNat = 10 := rfl
    omega
  constructor
  · intro h
    by_cases hshort : c.val ≤ 127
    · rw [utf8EncodeChar_of_le hshort, List.mem_singleton] at h
      have hn : c.val.toNat % 256 = 10 := (congrArg UInt8.toNat h).symm
      have hle : c.val.toNat ≤ 127 := UInt32.le_iff_toNat_le.mp hshort
      refine Char.ext (UInt32.toNat_inj.mp ?_)
      show c.val.toNat = 10
      omega
    · have hlong : ¬c.val.toNat ≤ 127 := fun hle => hshort (UInt32.le_iff_toNat_le.mpr hle)
      exfalso
      unfold String.utf8EncodeChar at h
      dsimp only at h
      rw [if_neg hlong] at h
      split at h
      · simp only [List.mem_cons, List.not_mem_nil, or_false] at h
        obtain h | h := h <;> exact hbyte (by omega) (by omega) h
      split at h
      · simp only [List.mem_cons, List.not_mem_nil, or_false] at h
        obtain h | h | h := h <;> exact hbyte (by omega) (by omega) h
      · simp only [List.mem_cons, List.not_mem_nil, or_false] at h
        obtain h | h | h | h := h <;> exact hbyte (by omega) (by omega) h
  · rintro rfl
    exact List.mem_singleton.mpr rfl

theorem lineFeed_mem_encode {cs : List Char} : lineFeed ∈ encode cs ↔ '\n' ∈ cs := by
  rw [encode, List.mem_flatMap]
  constructor
  · rintro ⟨c, hc, hmem⟩
    rwa [← lineFeed_mem_utf8EncodeChar.mp hmem]
  · intro h
    exact ⟨'\n', h, lineFeed_mem_utf8EncodeChar.mpr rfl⟩

/-! ## Places -/

namespace Position

/-- **The place at an offset**: its line is one more than the number of line
feeds before it, and its column one more than the number of bytes since the
last. -/
def inBytes (bytes : List UInt8) (offset : Nat) : Position :=
  ⟨offset, 1 + (bytes.take offset).count lineFeed,
    1 + ((bytes.take offset).reverse.takeWhile (· != lineFeed)).length⟩

theorem after_append (p : Position) (cs rest : List Char) :
    p.after (cs ++ rest) = (p.after cs).after rest := List.foldl_append

/-- **Reading characters leads to the place after their bytes.** A place is
moved on by one character at a time, and here it is found from the bytes
alone. By induction on the characters from the right. -/
theorem after_eq_inBytes (cs : List Char) (rest : List UInt8) :
    start.after cs = inBytes (encode cs ++ rest) (encode cs).length := by
  unfold inBytes
  rw [List.take_left]
  induction cs using List.reverseRecOn with
  | nil => rfl
  | append_singleton cs c ih =>
    rw [after_append, ih, after_cons, after_nil, next, encode_append, encode_cons, encode_nil,
      List.append_nil, List.length_append, List.count_append, List.reverse_append]
    by_cases hc : c = '\n'
    · subst hc
      rfl
    · have hfeed : lineFeed ∉ String.utf8EncodeChar c := fun h =>
        hc (lineFeed_mem_utf8EncodeChar.mp h)
      have hrun : ∀ b ∈ (String.utf8EncodeChar c).reverse, (b != lineFeed) = true := by
        intro b hb
        rw [bne_iff_ne]
        rintro rfl
        exact hfeed (List.mem_reverse.mp hb)
      rw [if_neg hc, List.count_eq_zero_of_not_mem hfeed, List.takeWhile_append_of_pos hrun,
        List.length_append, List.length_reverse, String.length_utf8EncodeChar, Nat.add_zero]
      simp only [mk.injEq, true_and]
      omega

end Position

end MapleCompiler
