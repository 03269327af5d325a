import Mathlib.Data.List.Basic

/-! The UTF-8 encoding of a text as a list of bytes. -/
namespace Utf8

def encode (text : List Char) : List UInt8 := text.flatMap String.utf8EncodeChar

theorem encode_append (first second : List Char) :
    encode (first ++ second) = encode first ++ encode second := List.flatMap_append

theorem encode_toList (text : String) : encode text.toList = text.toByteArray.data.toList := by
  have bytes : (String.ofList text.toList).toByteArray = text.toList.utf8Encode :=
    String.toByteArray_ofList
  rw [String.ofList_toList] at bytes
  rw [bytes, List.utf8Encode, List.toList_data_toByteArray]
  rfl

/-- Bytes decode to the text that they encode. -/
theorem fromUTF8?_eq_some_iff {bytes : List UInt8} {text : String} :
    String.fromUTF8? (ByteArray.mk bytes.toArray) = some text ↔ encode text.toList = bytes := by
  rw [encode_toList]
  unfold String.fromUTF8?
  constructor
  · intro decoded
    split at decoded
    · cases decoded
      rfl
    · cases decoded
  · rintro rfl
    exact dif_pos text.isValidUTF8

/-! Bytes read as characters, one by one. -/

theorem encodeChar_of_ascii {byte : UInt8} (ascii : byte < 0x80) :
    String.utf8EncodeChar (Char.ofUInt8 byte) = [byte] := by
  have small : byte.toNat ≤ 0x7f := Nat.le_of_lt_succ (UInt8.lt_iff_toNat_lt.mp ascii)
  unfold String.utf8EncodeChar
  change (if byte.toUInt32.toNat ≤ 0x7f then [UInt8.ofNat byte.toUInt32.toNat] else _) = _
  rw [UInt8.toNat_toUInt32, if_pos small, UInt8.ofNat_toNat]

theorem encodeChar_of_high {byte : UInt8} (high : ¬byte < 0x80) :
    1 < (String.utf8EncodeChar (Char.ofUInt8 byte)).length := by
  have positive := Char.utf8Size_pos (Char.ofUInt8 byte)
  have several : (Char.ofUInt8 byte).utf8Size ≠ 1 := by
    intro single
    have small : byte.toUInt32.toNat ≤ 127 := UInt32.le_iff_toNat_le.mp (Char.utf8Size_eq_one_iff.mp single)
    rw [UInt8.toNat_toUInt32] at small
    exact high (UInt8.lt_iff_toNat_lt.mpr (Nat.lt_succ_of_le small))
  rw [String.length_utf8EncodeChar]
  omega

theorem encode_cons (char : Char) (text : List Char) :
    encode (char :: text) = String.utf8EncodeChar char ++ encode text := List.flatMap_cons

theorem length_le_encode (text : List Char) : text.length ≤ (encode text).length := by
  induction text with
  | nil => exact Nat.le_refl 0
  | cons char text ih =>
      have positive := Char.utf8Size_pos char
      rw [encode_cons, List.length_append, String.length_utf8EncodeChar, List.length_cons]
      omega

/-- The characters encode to the bytes exactly when they are ASCII. -/
theorem encode_bytes_iff (bytes : List UInt8) :
    encode (bytes.map Char.ofUInt8) = bytes ↔ ∀ byte ∈ bytes, byte < 0x80 := by
  induction bytes with
  | nil => exact iff_of_true rfl nofun
  | cons byte bytes ih =>
      rw [List.map_cons, encode_cons, List.forall_mem_cons, ← ih]
      by_cases ascii : byte < 0x80
      · rw [encodeChar_of_ascii ascii, List.singleton_append, List.cons_inj_right]
        exact (and_iff_right ascii).symm
      · refine iff_of_false (fun same => ?_) (fun both => ascii both.1)
        have longer := encodeChar_of_high ascii
        have rest := length_le_encode (bytes.map Char.ofUInt8)
        have size := congrArg List.length same
        rw [List.length_append, List.length_cons] at size
        rw [List.length_map] at rest
        omega

theorem toByteArray_ofList {bytes : List UInt8} (ascii : ∀ byte ∈ bytes, byte < 0x80) :
    (String.ofList (bytes.map Char.ofUInt8)).toByteArray.data.toList = bytes := by
  rw [← encode_toList, String.toList_ofList]
  exact (encode_bytes_iff bytes).mpr ascii

end Utf8
