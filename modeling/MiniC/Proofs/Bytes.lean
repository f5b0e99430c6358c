/-
# MiniC.Proofs.Bytes — places of a text and the bytes of its UTF-8 form

The length that a place counts in bytes is that of the UTF-8 form of the text before it, so that an
offset and a length cut a part of a text out of the bytes of the whole.
-/
import MiniC.Position

namespace MiniC

set_option autoImplicit false

theorem size_utf8Encode (text : List Char) : text.utf8Encode.size = byteLength text := by
  induction text with
  | nil => rfl
  | cons c text ih =>
    rw [List.utf8Encode_cons, ByteArray.size_append, ih, byteLength_cons]
    simp [List.utf8Encode]

theorem utf8ByteSize_ofList (text : List Char) :
    (String.ofList text).utf8ByteSize = byteLength text :=
  size_utf8Encode text

/-- A part of a text stands in the bytes of the text behind those of what comes before it. -/
theorem extract_utf8Encode (before part after : List Char) :
    (before ++ part ++ after).utf8Encode.extract (byteLength before)
      (byteLength before + byteLength part) = part.utf8Encode := by
  have skipped := ByteArray.extract_append_size_add (a := before.utf8Encode)
    (b := part.utf8Encode ++ after.utf8Encode) (i := 0) (j := part.utf8Encode.size)
  rw [ByteArray.extract_append_eq_left rfl, Nat.add_zero, size_utf8Encode, size_utf8Encode]
    at skipped
  rw [List.append_assoc, List.utf8Encode_append, List.utf8Encode_append, skipped]

end MiniC
