import Vnctlsd.Python.Utf8

/-! What bytes a text is decoded from, and the fewest of them. -/
namespace Vnctlsd.Python.Utf8

theorem toNat_ofNat_byte {n : Nat} (h : n < 0x100) : (UInt8.ofNat n).toNat = n := by
  rw [UInt8.toNat_ofNat']
  exact Nat.mod_eq_of_lt h

/-- The bytes of a character: an ASCII character is its own byte, and no byte of another
one is ASCII. -/
theorem mem_utf8EncodeChar {c : Char} {b : UInt8} (h : b ∈ String.utf8EncodeChar c) :
    (c.toNat < 0x80 ∧ b.toNat = c.toNat) ∨ (0x80 ≤ b.toNat ∧ b.toNat < 0xff) := by
  rw [String.utf8EncodeChar] at h
  split at h
  case isTrue hsmall =>
    obtain rfl := List.mem_singleton.mp h
    have hascii : c.toNat < 0x80 := Nat.lt_succ_of_le hsmall
    exact .inl ⟨hascii, toNat_ofNat_byte (Nat.lt_trans hascii (by decide))⟩
  case isFalse =>
    right
    split at h
    · simp only [List.mem_cons, List.not_mem_nil, or_false] at h
      rcases h with rfl | rfl <;> rw [toNat_ofNat_byte (by omega)] <;> omega
    · split at h
      · simp only [List.mem_cons, List.not_mem_nil, or_false] at h
        rcases h with rfl | rfl | rfl <;> rw [toNat_ofNat_byte (by omega)] <;> omega
      · simp only [List.mem_cons, List.not_mem_nil, or_false] at h
        rcases h with rfl | rfl | rfl | rfl <;> rw [toNat_ofNat_byte (by omega)] <;> omega

theorem brokenWidth_le (b : UInt8) (rest : List UInt8) :
    1 ≤ brokenWidth (b :: rest) ∧ brokenWidth (b :: rest) ≤ (b :: rest).length := by
  cases rest with
  | nil => exact ⟨Nat.le_refl _, Nat.le_refl _⟩
  | cons second rest =>
      cases rest with
      | nil =>
          rw [brokenWidth]
          split <;> simp
      | cons third rest =>
          rw [brokenWidth]
          split
          · split <;> simp
          · simp

/-- The bytes that stand for a text: a character's own, or for a replacement mark any that
are no character. -/
inductive Decodes : List UInt8 → List Char → Prop where
  | nil : Decodes [] []
  | char (c : Char) {rest : List UInt8} {text : List Char} :
      Decodes rest text → Decodes (String.utf8EncodeChar c ++ rest) (c :: text)
  | broken {taken rest : List UInt8} {text : List Char} :
      taken ≠ [] → Decodes rest text → Decodes (taken ++ rest) ('\ufffd' :: text)

theorem decodes_decodeFrom (bytes : List UInt8) : Decodes bytes (decodeFrom 0 bytes) := by
  induction hlength : bytes.length using Nat.strongRecOn generalizing bytes with
  | ind length ih =>
      cases bytes with
      | nil => exact .nil
      | cons b rest =>
          have hsplit : ∀ taken tail, b :: rest = taken ++ tail → taken ≠ [] →
              (decodeHead (b :: rest)).2 = taken.length →
              decodeFrom 0 (b :: rest) = (decodeHead (b :: rest)).1 :: decodeFrom 0 tail ∧
                tail.length < length := by
            intro taken tail htail hne hwidth
            obtain ⟨first, taken, rfl⟩ := List.exists_cons_of_ne_nil hne
            rw [List.cons_append] at htail
            obtain ⟨-, hrest⟩ := List.cons.inj htail
            rw [decodeFrom, hwidth, List.length_cons, Nat.add_sub_cancel, hrest, decodeFrom_append]
            refine ⟨rfl, ?_⟩
            rw [← hlength, hrest, List.length_cons, List.length_append]
            omega
          cases hhead : (b :: rest).toByteArray.utf8DecodeChar? 0 with
          | some c =>
              have hdecode : decodeHead (b :: rest) = (c, c.utf8Size) := by rw [decodeHead, hhead]
              obtain ⟨tail, htail⟩ := ByteArray.exists_of_utf8DecodeChar?_eq_some hhead
              have hbytes : b :: rest = String.utf8EncodeChar c ++ tail.data.toList := by
                simpa using congrArg (fun bytes => bytes.data.toList) htail
              obtain ⟨heq, hless⟩ := hsplit _ _ hbytes String.utf8EncodeChar_ne_nil (by
                rw [hdecode, String.length_utf8EncodeChar])
              rw [heq, hdecode, hbytes]
              exact .char c (ih _ hless _ rfl)
          | none =>
              have hdecode : decodeHead (b :: rest) = ('\ufffd', brokenWidth (b :: rest)) := by
                rw [decodeHead, hhead]
              obtain ⟨hpos, hle⟩ := brokenWidth_le b rest
              have hne : (b :: rest).take (brokenWidth (b :: rest)) ≠ [] := by
                apply List.ne_nil_of_length_pos
                rw [List.length_take, Nat.min_eq_left hle]
                exact hpos
              have htake := (List.take_append_drop (brokenWidth (b :: rest)) (b :: rest)).symm
              obtain ⟨heq, hless⟩ := hsplit _ _ htake hne (by
                rw [hdecode, List.length_take, Nat.min_eq_left hle])
              rw [heq, hdecode]
              have hrest := Decodes.broken hne (ih _ hless _ rfl)
              rwa [List.take_append_drop] at hrest

/-- The bytes it takes to have a character decoded: one that begins none will do for a
replacement mark. -/
def typedChar (c : Char) : List UInt8 := if c = '\ufffd' then [0xff] else String.utf8EncodeChar c

def typed (text : List Char) : List UInt8 := text.flatMap typedChar

def cost (text : List Char) : Nat := (typed text).length

theorem typedChar_ne_nil (c : Char) : typedChar c ≠ [] := by
  unfold typedChar
  split
  · exact List.cons_ne_nil _ _
  · exact String.utf8EncodeChar_ne_nil

theorem length_typedChar_le (c : Char) :
    (typedChar c).length ≤ (String.utf8EncodeChar c).length := by
  unfold typedChar
  split
  · exact List.length_pos_iff.mpr String.utf8EncodeChar_ne_nil
  · exact Nat.le_refl _

theorem cost_cons (c : Char) (text : List Char) :
    cost (c :: text) = (typedChar c).length + cost text := by
  rw [cost, typed, List.flatMap_cons, List.length_append]
  rfl

theorem cost_append (first second : List Char) :
    cost (first ++ second) = cost first + cost second := by
  rw [cost, typed, List.flatMap_append, List.length_append]
  rfl

/-- No bytes are decoded to more than they cost. -/
theorem Decodes.cost_le {bytes : List UInt8} {text : List Char} (h : Decodes bytes text) :
    cost text ≤ bytes.length := by
  induction h with
  | nil => exact Nat.le_refl _
  | char c _ ih =>
      rw [cost_cons, List.length_append]
      exact Nat.add_le_add (length_typedChar_le c) ih
  | broken hne _ ih =>
      rw [cost_cons, List.length_append]
      exact Nat.add_le_add (List.length_pos_iff.mpr hne) ih

/-- An ASCII character is decoded from its own byte. -/
theorem Decodes.mem_of_ascii {bytes : List UInt8} {text : List Char} (h : Decodes bytes text)
    {c : Char} (hascii : c.toNat < 0x80) (hmem : c ∈ text) : UInt8.ofNat c.toNat ∈ bytes := by
  induction h with
  | nil => exact absurd hmem List.not_mem_nil
  | char other _ ih =>
      rcases List.mem_cons.mp hmem with rfl | hmem
      · have hval : c.val.toNat ≤ 0x7f := Nat.le_of_lt_succ hascii
        have hsize : c.utf8Size = 1 := by
          rw [Char.utf8Size, if_pos (UInt32.le_iff_toNat_le.mpr hval)]
        rw [String.utf8EncodeChar_eq_singleton hsize]
        exact List.mem_append_left _ (List.mem_singleton.mpr (UInt8.toNat_inj.mp (by
          rw [UInt8.toNat_ofNat']
          rfl)))
      · exact List.mem_append_right _ (ih hmem)
  | broken _ _ ih =>
      rcases List.mem_cons.mp hmem with rfl | hmem
      · exact absurd hascii (by decide)
      · exact List.mem_append_right _ (ih hmem)

/-- No character begins with the byte that is typed for a replacement mark. -/
theorem utf8DecodeChar?_mark (rest : List UInt8) :
    (0xff :: rest).toByteArray.utf8DecodeChar? 0 = none := by
  cases hhead : (0xff :: rest).toByteArray.utf8DecodeChar? 0 with
  | none => rfl
  | some c =>
      exfalso
      obtain ⟨tail, htail⟩ := ByteArray.exists_of_utf8DecodeChar?_eq_some hhead
      have hbytes : 0xff :: rest = String.utf8EncodeChar c ++ tail.data.toList := by
        simpa using congrArg (fun bytes => bytes.data.toList) htail
      obtain ⟨first, taken, hsplit⟩ :=
        List.exists_cons_of_ne_nil (@String.utf8EncodeChar_ne_nil c)
      rw [hsplit, List.cons_append] at hbytes
      obtain ⟨rfl, -⟩ := List.cons.inj hbytes
      have hmem : (0xff : UInt8) ∈ String.utf8EncodeChar c := hsplit ▸ List.mem_cons_self
      have hvalue : (0xff : UInt8).toNat = 0xff := rfl
      rcases mem_utf8EncodeChar hmem with ⟨hascii, heq⟩ | ⟨-, hless⟩ <;> omega

theorem begins_mark (second : UInt8) : begins 0xff second = false := rfl

theorem decodeHead_typedChar (c : Char) (rest : List UInt8) :
    decodeHead (typedChar c ++ rest) = (c, (typedChar c).length) := by
  by_cases hmark : c = '\ufffd'
  · subst hmark
    rw [typedChar, if_pos rfl, List.singleton_append, decodeHead, utf8DecodeChar?_mark]
    cases rest with
    | nil => rfl
    | cons second rest =>
        simp only [brokenWidth, begins_mark, Bool.false_eq_true, if_false, List.length_singleton]
  · rw [typedChar, if_neg hmark, decodeHead_encode, String.length_utf8EncodeChar]

theorem decodeFrom_typed (text : List Char) : decodeFrom 0 (typed text) = text := by
  induction text with
  | nil => rfl
  | cons c text ih =>
      obtain ⟨first, taken, hsplit⟩ := List.exists_cons_of_ne_nil (typedChar_ne_nil c)
      have hhead := decodeHead_typedChar c (typed text)
      have htyped : typed (c :: text) = first :: (taken ++ typed text) := by
        rw [typed, List.flatMap_cons, hsplit]
        rfl
      rw [hsplit, List.cons_append] at hhead
      rw [htyped, decodeFrom, hhead, List.length_cons, Nat.add_sub_cancel, decodeFrom_append, ih]

end Vnctlsd.Python.Utf8
