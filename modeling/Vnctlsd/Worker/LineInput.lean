import Vnctlsd.Worker.SockReadline

/-! The lines that can be typed: what `sock_readline` returns, over all that a client
can send. -/
namespace Vnctlsd.Worker.SockReadline

/-- No byte of it is an end of line, an erasure or an interrupt. -/
def Typed (bytes : List UInt8) : Prop :=
  ∀ b ∈ bytes, ¬ (b = 0x0d ∨ b = 0x0a) ∧ ¬ (b = 0x7f ∨ b = 0x08) ∧ b ≠ 0x03

theorem result_echo (echo : Bool) (bytes : List UInt8) (call : Call) :
    (call.echo echo bytes).result = call.result := by
  unfold Call.echo
  split <;> rfl

theorem rest_echo (echo : Bool) (bytes : List UInt8) (call : Call) :
    (call.echo echo bytes).rest = call.rest := by
  unfold Call.echo
  split <;> rfl

/-- What is typed is the line, up to the end of line. -/
theorem readline_typed {bytes text : List UInt8} {maxLen : Nat} (htyped : Typed bytes)
    (hlength : text.length + bytes.length ≤ maxLen) (echo : Bool) (following : List UInt8) :
    (readline echo maxLen text (bytes ++ 0x0d :: following)).result = .line (text ++ bytes) ∧
      (readline echo maxLen text (bytes ++ 0x0d :: following)).rest = following := by
  induction bytes generalizing text with
  | nil =>
      rw [List.append_nil, List.nil_append, readline, if_pos (.inl rfl), result_echo, rest_echo]
      exact ⟨rfl, rfl⟩
  | cons b rest ih =>
      obtain ⟨⟨hend, herase, hinterrupt⟩, hrest⟩ := List.forall_mem_cons.mp htyped
      rw [List.length_cons] at hlength
      have hnext : (text ++ [b]).length + rest.length ≤ maxLen := by
        rw [List.length_append, List.length_singleton]
        omega
      have hline := ih hrest hnext
      rw [List.append_assoc, List.singleton_append] at hline
      rw [List.cons_append, readline, if_neg hend, if_neg herase, if_neg hinterrupt,
        if_pos (by omega), result_echo, rest_echo]
      exact hline

theorem Typed.append {first second : List UInt8} (hfirst : Typed first) (hsecond : Typed second) :
    Typed (first ++ second) :=
  List.forall_mem_append.mpr ⟨hfirst, hsecond⟩

/-- The bytes kept so far are typed and fit, whatever comes next. -/
theorem typed_of_line {bytes text line : List UInt8} {maxLen : Nat} {echo : Bool}
    (htext : Typed text) (hlength : text.length ≤ maxLen)
    (h : (readline echo maxLen text bytes).result = .line line) :
    Typed line ∧ line.length ≤ maxLen := by
  induction bytes generalizing text with
  | nil => cases h
  | cons b rest ih =>
      rw [readline] at h
      split at h
      · rw [result_echo] at h
        cases h
        exact ⟨htext, hlength⟩
      · rename_i hend
        split at h
        · split at h
          · exact ih htext hlength h
          · rw [result_echo] at h
            refine ih (fun b hb => htext b (List.dropLast_subset _ hb)) ?_ h
            rw [List.length_dropLast]
            omega
        · rename_i herase
          split at h
          · cases h
          · rename_i hinterrupt
            split at h
            · rw [result_echo] at h
              have hbyte : Typed [b] := fun other hmem =>
                List.mem_singleton.mp hmem ▸ ⟨hend, herase, hinterrupt⟩
              refine ih (htext.append hbyte) ?_ h
              rw [List.length_append, List.length_singleton]
              omega
            · exact ih htext hlength h

/-- The lines the prompt can take are those without a control byte of its own, up to
the maximal length. -/
theorem line_iff (echo : Bool) (maxLen : Nat) (line : List UInt8) :
    (∃ bytes, (sockReadline echo maxLen bytes).result = .line line) ↔
      Typed line ∧ line.length ≤ maxLen := by
  constructor
  · rintro ⟨bytes, h⟩
    exact typed_of_line (fun _ hmem => absurd hmem List.not_mem_nil) (Nat.zero_le _) h
  · rintro ⟨htyped, hlength⟩
    have hroom : ([] : List UInt8).length + line.length ≤ maxLen := by
      rw [List.length_nil, Nat.zero_add]
      exact hlength
    exact ⟨line ++ [0x0d], (readline_typed htyped hroom echo []).1⟩

end Vnctlsd.Worker.SockReadline
