import Mathlib.Data.List.Basic

/-! `str.encode` and `bytes.decode('utf-8', errors='replace')`. -/
namespace Vnctlsd.Python.Utf8

def encode (text : List Char) : List UInt8 := text.flatMap String.utf8EncodeChar

def isContinuation (b : UInt8) : Bool := 0x80 ≤ b && b ≤ 0xbf

/-- The two bytes begin a character of three or four: not one that has a shorter form,
a surrogate, or beyond the last character. -/
def begins (first second : UInt8) : Bool :=
  0xe0 ≤ first && first ≤ 0xf4 && isContinuation second &&
    !(first == 0xe0 && second < 0xa0) && !(first == 0xed && 0xa0 ≤ second) &&
    !(first == 0xf0 && second < 0x90) && !(first == 0xf4 && 0x90 ≤ second)

/-- Where no character stands: the bytes that one replacement mark stands for, the
longest beginning of a character or a single byte. -/
def brokenWidth : List UInt8 → Nat
  | first :: second :: rest =>
      if begins first second then
        match rest with
        | third :: _ => if 0xf0 ≤ first && isContinuation third then 3 else 2
        | [] => 2
      else 1
  | _ => 1

/-- The first character, or a replacement mark, and the bytes it takes. -/
def decodeHead (bytes : List UInt8) : Char × Nat :=
  match bytes.toByteArray.utf8DecodeChar? 0 with
  | some c => (c, c.utf8Size)
  | none => ('\ufffd', brokenWidth bytes)

/-- The first `skip` bytes belong to the character before. -/
def decodeFrom : (skip : Nat) → List UInt8 → List Char
  | _, [] => []
  | skip + 1, _ :: rest => decodeFrom skip rest
  | 0, b :: rest =>
      (decodeHead (b :: rest)).1 :: decodeFrom ((decodeHead (b :: rest)).2 - 1) rest

def decode (bytes : List UInt8) : String := String.ofList (decodeFrom 0 bytes)

theorem encode_eq_nil_iff {text : List Char} : encode text = [] ↔ text = [] := by
  constructor
  · intro h
    cases text with
    | nil => rfl
    | cons c text =>
        exact absurd (List.append_eq_nil_iff.mp h).1 String.utf8EncodeChar_ne_nil
  · rintro rfl
    rfl

theorem decodeFrom_append (taken rest : List UInt8) :
    decodeFrom taken.length (taken ++ rest) = decodeFrom 0 rest := by
  induction taken with
  | nil => rfl
  | cons b taken ih => exact ih

theorem decodeHead_encode (c : Char) (rest : List UInt8) :
    decodeHead (String.utf8EncodeChar c ++ rest) = (c, c.utf8Size) := by
  rw [decodeHead, List.toByteArray_append, ByteArray.utf8DecodeChar?_utf8EncodeChar_append]

theorem decodeFrom_encode (text : List Char) : decodeFrom 0 (encode text) = text := by
  induction text with
  | nil => rfl
  | cons c text ih =>
      obtain ⟨first, taken, hsplit⟩ := List.exists_cons_of_ne_nil (@String.utf8EncodeChar_ne_nil c)
      have hlength : c.utf8Size - 1 = taken.length := by
        rw [← String.length_utf8EncodeChar, hsplit]
        rfl
      have hhead := decodeHead_encode c (encode text)
      rw [hsplit, List.cons_append] at hhead
      have hencode : encode (c :: text) = first :: (taken ++ encode text) := by
        rw [encode, List.flatMap_cons, hsplit]
        rfl
      rw [hencode, decodeFrom, hhead, hlength, decodeFrom_append, ih]

theorem decode_encode (text : List Char) : decode (encode text) = String.ofList text := by
  rw [decode, decodeFrom_encode]

theorem ofNat_ne_zero {n : Nat} (h : n % 256 ≠ 0) : (0 : UInt8) ≠ UInt8.ofNat n := by
  intro hzero
  have hvalue := congrArg UInt8.toNat hzero
  rw [UInt8.toNat_ofNat'] at hvalue
  exact h hvalue.symm

/-- Only the null character has a null byte in its encoding. -/
theorem eq_null_of_zero_mem {c : Char} (h : 0 ∈ String.utf8EncodeChar c) : c = '\x00' := by
  rw [String.utf8EncodeChar] at h
  split at h
  case isTrue hsmall =>
    by_contra hc
    have hvalue : c.val.toNat ≠ 0 := fun hzero => hc (Char.toNat_inj.mp hzero)
    exact ofNat_ne_zero (by omega) (List.mem_singleton.mp h)
  case isFalse =>
    exfalso
    split at h
    · simp only [List.mem_cons, List.not_mem_nil, or_false] at h
      rcases h with h | h <;> exact ofNat_ne_zero (by omega) h
    · split at h
      · simp only [List.mem_cons, List.not_mem_nil, or_false] at h
        rcases h with h | h | h <;> exact ofNat_ne_zero (by omega) h
      · simp only [List.mem_cons, List.not_mem_nil, or_false] at h
        rcases h with h | h | h | h <;> exact ofNat_ne_zero (by omega) h

theorem zero_notMem_encode {text : List Char} (h : '\x00' ∉ text) : 0 ∉ encode text := by
  intro hzero
  obtain ⟨c, hc, hmem⟩ := List.mem_flatMap.mp hzero
  rw [eq_null_of_zero_mem hmem] at hc
  exact h hc

example : decode [0x61, 0xe2, 0x82, 0x41, 0xff] = "a\ufffdA\ufffd" := by decide

end Vnctlsd.Python.Utf8
