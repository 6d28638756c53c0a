import Mathlib.Data.String.Basic
import Mathlib.Tactic.SplitIfs

/-!
# Text as UTF-8 bytes

`encode` and `decode` between the characters of a text and its bytes; `decode` is strict, and is
the inverse of `encode` (`decode_encode`, `encode_of_decode`).
-/

abbrev Bytes := List UInt8

namespace Utf8

def encode (cs : List Char) : Bytes := cs.flatMap String.utf8EncodeChar

/-- The characters of a byte sequence that is well-formed UTF-8. -/
def decode (bs : Bytes) : Option (List Char) := bs.toByteArray.utf8Decode?.map Array.toList

@[simp] theorem encode_nil : encode [] = [] := rfl

@[simp] theorem encode_cons (c : Char) (cs : List Char) :
    encode (c :: cs) = String.utf8EncodeChar c ++ encode cs := rfl

@[simp] theorem encode_append (as bs : List Char) : encode (as ++ bs) = encode as ++ encode bs :=
  List.flatMap_append

theorem toByteArray_encode (cs : List Char) : (encode cs).toByteArray = cs.utf8Encode := rfl

@[simp] theorem decode_encode (cs : List Char) : decode (encode cs) = some cs := by
  rw [decode, toByteArray_encode, List.utf8Decode?_utf8Encode]
  rfl

theorem encode_injective : Function.Injective encode := by
  intro as bs h
  have hdec := congrArg decode h
  simpa using hdec

theorem toByteArray_injective : Function.Injective (List.toByteArray : Bytes → ByteArray) := by
  intro as bs h
  simpa using congrArg (fun b : ByteArray => b.data.toList) h

/-- A byte sequence that decodes is the encoding of its characters. -/
theorem encode_of_decode {bs : Bytes} {cs : List Char} (h : decode bs = some cs) :
    encode cs = bs := by
  obtain ⟨arr, harr, rfl⟩ := Option.map_eq_some_iff.mp h
  have hval : (bs.toByteArray.utf8Decode?.get (by rw [harr]; rfl)).toList.utf8Encode =
      bs.toByteArray := ByteArray.utf8Encode_get_utf8Decode?
  apply toByteArray_injective
  rw [toByteArray_encode]
  simpa [harr] using hval

/-- The encoding of a character below `0x80` is that one byte. -/
theorem encode_ascii {c : Char} (h : c.toNat < 128) :
    String.utf8EncodeChar c = [UInt8.ofNat c.toNat] := by
  have hsize : c.utf8Size = 1 := by
    rw [Char.utf8Size_eq_one_iff]
    exact UInt32.le_iff_toNat_le.mpr (by simpa using Nat.le_of_lt_succ h)
  rw [String.utf8EncodeChar_eq_singleton hsize]
  rfl

/-- A character from `0x80` on has no byte below `0x80`. -/
theorem encode_not_ascii {c : Char} (h : 128 ≤ c.toNat) :
    ∀ b ∈ String.utf8EncodeChar c, 128 ≤ b.toNat := by
  have hv : ¬ c.val.toNat ≤ 0x7f := by
    change 128 ≤ c.val.toNat at h
    omega
  intro b hb
  unfold String.utf8EncodeChar at hb
  simp only [if_neg hv] at hb
  split_ifs at hb <;>
    simp only [List.mem_cons, List.not_mem_nil, or_false] at hb <;>
    rcases hb with rfl | rfl | rfl | rfl <;>
    simp only [UInt8.toNat_ofNat'] <;> omega

theorem length_encode_ascii {cs : List Char} (h : ∀ c ∈ cs, c.toNat < 128) :
    (encode cs).length = cs.length := by
  induction cs with
  | nil => rfl
  | cons c cs ih =>
    rw [encode_cons, encode_ascii (h c (by simp)), List.singleton_append, List.length_cons,
      List.length_cons, ih fun d hd => h d (by simp [hd])]

theorem length_le_length_encode (cs : List Char) : cs.length ≤ (encode cs).length := by
  induction cs with
  | nil => exact le_rfl
  | cons c cs ih =>
    have hpos : 0 < (String.utf8EncodeChar c).length := by
      rw [String.length_utf8EncodeChar]
      exact c.utf8Size_pos
    rw [encode_cons, List.length_append, List.length_cons]
    omega

end Utf8
