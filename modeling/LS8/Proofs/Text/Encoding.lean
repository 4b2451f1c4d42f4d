import Mathlib.Data.List.Induction
import Mathlib.Tactic.SplitIfs
import LS8.Text.Encoded

/-! Text next to other bytes. The first byte of an encoded character is never one of its later
bytes, so text can be told from what stands in front of it and behind it, also where that is no
text. Neither can a byte of another character be taken for a character of ASCII. -/
namespace LS8.Text

/-- Only the first byte of a character looks like one. -/
theorem isUTF8FirstByte_utf8EncodeChar {c : Char} {index : Nat} {byte : UInt8}
    (at_index : (String.utf8EncodeChar c)[index]? = some byte) :
    byte.IsUTF8FirstByte ↔ index = 0 := by
  obtain ⟨inside, rfl⟩ := List.getElem?_eq_some_iff.mp at_index
  exact UInt8.isUTF8FirstByte_getElem_utf8EncodeChar

/-- A character at the end of some bytes is not the end of a longer character. -/
theorem eq_nil_of_append_utf8EncodeChar {front : List UInt8} {c d : Char}
    (ends : front ++ String.utf8EncodeChar c = String.utf8EncodeChar d) : front = [] := by
  obtain ⟨byte, rest, opens⟩ := List.exists_cons_of_ne_nil (String.utf8EncodeChar_ne_nil (c := c))
  have opening : (String.utf8EncodeChar c)[0]? = some byte := by rw [opens]; rfl
  have first : byte.IsUTF8FirstByte := (isUTF8FirstByte_utf8EncodeChar opening).mpr rfl
  have inside : (String.utf8EncodeChar d)[front.length]? = some byte := by
    rw [← ends, opens]
    simp
  exact List.length_eq_zero_iff.mp ((isUTF8FirstByte_utf8EncodeChar inside).mp first)

theorem append_utf8EncodeChar_inj {front front' : List UInt8} {c d : Char}
    (same : front ++ String.utf8EncodeChar c = front' ++ String.utf8EncodeChar d) :
    front = front' ∧ encode [c] = encode [d] := by
  rcases List.append_eq_append_iff.mp same with ⟨more, rfl, ends⟩ | ⟨more, rfl, ends⟩
  · obtain rfl := eq_nil_of_append_utf8EncodeChar ends.symm
    simpa [encode] using ends
  · obtain rfl := eq_nil_of_append_utf8EncodeChar ends.symm
    simpa [encode] using ends.symm

theorem encode_injective {text other : List Char} (same : encode text = encode other) :
    text = other :=
  Option.some.inj ((decode?_eq_some_iff.mpr rfl).symm.trans (decode?_eq_some_iff.mpr same))

/-- What is in front of a character is text if all of it is. -/
theorem decode?_append_encode_singleton (bytes : List UInt8) (c : Char) :
    decode? (bytes ++ encode [c]) = (decode? bytes).map (· ++ [c]) := by
  apply Option.ext
  intro text
  rw [decode?_eq_some_iff, Option.map_eq_some_iff]
  constructor
  · intro same
    rcases List.eq_nil_or_concat text with rfl | ⟨init, d, rfl⟩
    · simp [encode, String.utf8EncodeChar_ne_nil] at same
    · rw [List.concat_eq_append, encode_append] at same
      obtain ⟨rfl, last⟩ := append_utf8EncodeChar_inj (by simpa [encode] using same)
      refine ⟨init, decode?_eq_some_iff.mpr rfl, ?_⟩
      rw [List.concat_eq_append, encode_injective last]
  · rintro ⟨init, read, rfl⟩
    rw [decode?_eq_some_iff.mp read, encode_append]

theorem decode?_append_encode (bytes : List UInt8) (back : List Char) :
    decode? (bytes ++ encode back) = (decode? bytes).map (· ++ back) := by
  induction back using List.reverseRecOn with
  | nil => simp
  | append_singleton back c ih =>
    rw [encode_append, ← List.append_assoc, decode?_append_encode_singleton, ih, Option.map_map]
    congr 1
    funext text
    simp

/-- What is behind text is text if all of it is. -/
theorem decode?_encode_append (front : List Char) (bytes : List UInt8) :
    decode? (encode front ++ bytes) = (decode? bytes).map (front ++ ·) := by
  apply Option.ext
  intro text
  rw [decode?_eq_some_iff, Option.map_eq_some_iff]
  constructor
  · intro same
    have encoded : front.utf8Encode ++ bytes.toByteArray = text.utf8Encode := by
      have arrays := congrArg List.toByteArray same
      rwa [List.toByteArray_append] at arrays
    obtain ⟨back, rfl⟩ := List.isPrefix_of_utf8Encode_append_eq_utf8Encode _ encoded
    rw [encode_append] at same
    exact ⟨back, decode?_eq_some_iff.mpr (List.append_cancel_left same), rfl⟩
  · rintro ⟨back, read, rfl⟩
    rw [decode?_eq_some_iff.mp read, encode_append]

@[simp] theorem decode?_encode (text : List Char) : decode? (encode text) = some text :=
  decode?_eq_some_iff.mpr rfl

theorem decode?_eq_none_iff {bytes : List UInt8} :
    decode? bytes = none ↔ ∀ text, bytes ≠ encode text := by
  simp only [Option.eq_none_iff_forall_ne_some, ne_eq, decode?_eq_some_iff]

/-- A byte of ASCII stands for itself and for no part of another character. -/
theorem mem_utf8EncodeChar_iff {c d : Char} (ascii : c.toNat < 128) :
    UInt8.ofNat c.toNat ∈ String.utf8EncodeChar d ↔ c = d := by
  have same : c = d ↔ c.toNat = d.toNat := ⟨congrArg Char.toNat, Char.toNat_inj.mp⟩
  have value : d.val.toNat = d.toNat := rfl
  simp only [same, String.utf8EncodeChar, value]
  -- each byte of a longer encoding is 128 or more
  split_ifs <;>
    simp only [← UInt8.toNat_inj, UInt8.toNat_ofNat', List.mem_cons, List.not_mem_nil, or_false] <;>
    omega

theorem mem_encode_iff {c : Char} (ascii : c.toNat < 128) {text : List Char} :
    UInt8.ofNat c.toNat ∈ encode text ↔ c ∈ text := by
  simp [encode, mem_utf8EncodeChar_iff ascii]

/-- A character of ASCII is one byte. -/
theorem length_encode_of_ascii {text : List Char} (ascii : ∀ c ∈ text, c.toNat < 0x80) :
    (encode text).length = text.length := by
  induction text with
  | nil => rfl
  | cons c rest ih =>
    obtain ⟨first, later⟩ := List.forall_mem_cons.mp ascii
    have single : (String.utf8EncodeChar c).length = 1 := by
      rw [String.length_utf8EncodeChar, Char.utf8Size_eq_one_iff, UInt32.le_iff_toNat_le]
      exact Nat.le_of_lt_succ first
    rw [encode, List.flatMap_cons, List.length_append, single, ← encode, ih later, List.length_cons,
      Nat.add_comm]

end LS8.Text
