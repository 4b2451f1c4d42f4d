/-! Text as bytes. A line of source arrives as bytes and is read as characters only
if they are UTF-8; `decode?_eq_some_iff` says that decoding undoes encoding and
accepts nothing else. -/
namespace LS8.Text

def encode (text : List Char) : List UInt8 := text.flatMap String.utf8EncodeChar

def decode? (bytes : List UInt8) : Option (List Char) :=
  (String.fromUTF8? ⟨bytes.toArray⟩).map String.toList

@[simp] theorem encode_nil : encode [] = [] := rfl

@[simp] theorem encode_append (front back : List Char) :
    encode (front ++ back) = encode front ++ encode back := by
  simp [encode]

theorem decode?_eq_some_iff {bytes : List UInt8} {text : List Char} :
    decode? bytes = some text ↔ bytes = encode text := by
  have array (bytes : List UInt8) : (⟨bytes.toArray⟩ : ByteArray) = bytes.toByteArray :=
    ByteArray.ext (by simp)
  unfold decode? String.fromUTF8? encode
  constructor
  · intro decoded
    split at decoded
    · rename_i valid
      obtain rfl := Option.some.inj decoded
      have same := String.utf8Encode_toList (b := String.fromUTF8 _ valid)
      exact (List.toByteArray_inj.mp (same.trans (array bytes))).symm
    · contradiction
  · rintro rfl
    have valid : (text.flatMap String.utf8EncodeChar).toByteArray.IsValidUTF8 :=
      ByteArray.isValidUTF8_utf8Encode (l := text)
    rw [array, dif_pos valid]
    simp only [Option.map_some, Option.some.injEq]
    have same : String.fromUTF8 _ valid = String.ofList text :=
      String.toByteArray_inj.mp (by simp [String.fromUTF8, List.utf8Encode])
    rw [same, String.toList_ofList]

end LS8.Text
