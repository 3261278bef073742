import Mathlib.Data.List.Induction
import Vnctlsd.Library.Terminal
import Vnctlsd.Worker.SockReadline

/-! What `sock_readline` holds and what the terminal behind its echo shows: the same
text after every byte. -/
namespace Vnctlsd.Worker.LineEditing
open Vnctlsd.Library.Terminal Vnctlsd.Python.Text SockReadline

abbrev Printable (b : UInt8) : Prop := 0x20 ≤ b ∧ b ≤ 0x7e

/-- Carriage return or line feed. -/
abbrev Ends (b : UInt8) : Prop := b = 0x0d ∨ b = 0x0a

/-- Backspace or delete. -/
abbrev Erases (b : UInt8) : Prop := b = 0x7f ∨ b = 0x08

/-- A byte that edits the line. -/
abbrev Edits (b : UInt8) : Prop := Printable b ∨ Erases b

/-- One edit of a line that holds at most `maxLen` bytes. -/
def edit (maxLen : Nat) (text : List UInt8) (b : UInt8) : List UInt8 :=
  if Erases b then text.dropLast
  else if text.length < maxLen then text ++ [b]
  else text

def edited (maxLen : Nat) (bytes : List UInt8) : List UInt8 := bytes.foldl (edit maxLen) []

/-- What `sock_readline` echoes of one edit. -/
def echo (maxLen : Nat) (text : List UInt8) (b : UInt8) : List UInt8 :=
  if Erases b then if text = [] then [] else [0x08, 0x20, 0x08]
  else if text.length < maxLen then [b]
  else []

/-- The key that a byte is for the terminal. -/
def keyOf (b : UInt8) : Option (Key UInt8) :=
  if b = 0x08 then some .back else if Printable b then some (.glyph b) else none

/-- The line that stood there, with the bytes written to it. -/
def written (line : Line UInt8) (bytes : List UInt8) : Line UInt8 :=
  line.pressAll (bytes.filterMap keyOf)

abbrev ShowsText (line : Line UInt8) (text : List UInt8) : Prop := Shows 0x20 line text

variable {maxLen : Nat} {text front rest : List UInt8} {b : UInt8}

theorem Edits.ne_interrupt (h : Edits b) : b ≠ 0x03 := by
  rintro rfl
  exact absurd h (by decide)

theorem Edits.not_ends (h : Edits b) : ¬ Ends b := by
  rintro (rfl | rfl)
  · exact absurd h (by decide)
  · exact absurd h (by decide)

theorem length_edit_le (h : text.length ≤ maxLen) (b : UInt8) :
    (edit maxLen text b).length ≤ maxLen := by
  rw [edit]
  split
  case isTrue =>
    rw [List.length_dropLast]
    omega
  case isFalse =>
    split
    case isTrue hroom =>
      rw [List.length_append]
      exact hroom
    case isFalse => exact h

theorem length_edited_le (maxLen : Nat) (bytes : List UInt8) :
    (edited maxLen bytes).length ≤ maxLen := by
  induction bytes using List.reverseRecOn with
  | nil => exact Nat.zero_le _
  | append_singleton bytes b ih =>
      rw [edited, List.foldl_append]
      exact length_edit_le ih b

theorem echo_nil (call : Call) : call.echo true [] = call := rfl

theorem echo_append (first second : List UInt8) (call : Call) :
    call.echo true (first ++ second) = (call.echo true second).echo true first := by
  simp only [Call.echo, if_true, List.append_assoc]

/-- The call on one byte: an edit and its echo, then the rest of the stream. -/
theorem readline_edit (h : Edits b) (rest : List UInt8) :
    readline true maxLen text (b :: rest) =
      (readline true maxLen (edit maxLen text b) rest).echo true (echo maxLen text b) := by
  rw [readline, if_neg h.not_ends, edit, echo]
  by_cases herases : Erases b
  · rw [if_pos herases, if_pos herases, if_pos herases]
    by_cases hempty : text = []
    · rw [if_pos hempty, if_pos hempty, hempty, List.dropLast_nil, echo_nil]
    · rw [if_neg hempty, if_neg hempty]
  · rw [if_neg herases, if_neg herases, if_neg herases, if_neg h.ne_interrupt]
    by_cases hroom : text.length < maxLen
    · rw [if_pos hroom, if_pos hroom, if_pos hroom]
    · rw [if_neg hroom, if_neg hroom, if_neg hroom, echo_nil]

/-- The echoes of the edits, one after another. -/
def echoes (maxLen : Nat) (text : List UInt8) : List UInt8 → List UInt8
  | [] => []
  | b :: rest => echo maxLen text b ++ echoes maxLen (edit maxLen text b) rest

theorem echoes_append (text first second : List UInt8) :
    echoes maxLen text (first ++ second) =
      echoes maxLen text first ++ echoes maxLen (first.foldl (edit maxLen) text) second := by
  induction first generalizing text with
  | nil => rfl
  | cons b first ih =>
      rw [List.cons_append, echoes, echoes, ih, List.append_assoc, List.foldl_cons]

theorem readline_edits (h : ∀ b ∈ front, Edits b) (rest : List UInt8) :
    readline true maxLen text (front ++ rest) =
      (readline true maxLen (front.foldl (edit maxLen) text) rest).echo true
        (echoes maxLen text front) := by
  induction front generalizing text with
  | nil => rfl
  | cons b front ih =>
      rw [List.cons_append, readline_edit (h b List.mem_cons_self),
        ih fun other hother => h other (List.mem_cons_of_mem b hother), ← echo_append]
      rfl

/-- Nothing comes after these bytes: the call waits with the text it holds. -/
theorem sockReadline_waits (h : ∀ b ∈ front, Edits b) :
    sockReadline true maxLen front =
      ⟨.waiting (edited maxLen front), echoes maxLen [] front, []⟩ := by
  have hedits := @readline_edits maxLen [] front h []
  rw [List.append_nil] at hedits
  rw [sockReadline, hedits, readline, Call.echo, if_pos rfl, List.append_nil]
  rfl

theorem sockReadline_returns (h : ∀ b ∈ front, Edits b) (hends : Ends b) (rest : List UInt8) :
    sockReadline true maxLen (front ++ b :: rest) =
      ⟨.line (edited maxLen front), echoes maxLen [] front ++ [0x0d, 0x0a], rest⟩ := by
  rw [sockReadline, readline_edits h, readline, if_pos hends]
  rfl

theorem written_append (line : Line UInt8) (first second : List UInt8) :
    written line (first ++ second) = written (written line first) second := by
  rw [written, List.filterMap_append, Line.pressAll_append]
  rfl

/-- After the echo of one edit the terminal shows the edited text. -/
theorem shows_echo {line : Line UInt8} {prompt : List UInt8} (h : Edits b)
    (hshows : ShowsText line (prompt ++ text)) :
    ShowsText (written line (echo maxLen text b)) (prompt ++ edit maxLen text b) := by
  rw [echo, edit]
  by_cases herases : Erases b
  · rw [if_pos herases, if_pos herases]
    rcases List.eq_nil_or_concat text with rfl | ⟨text, last, rfl⟩
    · exact hshows
    · rw [List.concat_eq_append, ← List.append_assoc] at hshows
      rw [List.concat_eq_append, if_neg (List.concat_ne_nil last text), List.dropLast_concat]
      exact hshows.wipe
  · rw [if_neg herases, if_neg herases]
    by_cases hroom : text.length < maxLen
    · have hprintable : Printable b := h.resolve_right herases
      have hkey : keyOf b = some (.glyph b) := by
        rw [keyOf, if_neg fun hback => herases (.inr hback), if_pos hprintable]
      rw [if_pos hroom, if_pos hroom, written, List.filterMap_cons, hkey, ← List.append_assoc]
      exact hshows.glyph b
    · rw [if_neg hroom, if_neg hroom]
      exact hshows

theorem shows_echoes {line : Line UInt8} {prompt : List UInt8} (h : ∀ b ∈ front, Edits b)
    (hshows : ShowsText line (prompt ++ text)) :
    ShowsText (written line (echoes maxLen text front))
      (prompt ++ front.foldl (edit maxLen) text) := by
  induction front generalizing text line with
  | nil => exact hshows
  | cons b front ih =>
      rw [echoes, written_append, List.foldl_cons]
      exact ih (fun other hother => h other (List.mem_cons_of_mem b hother))
        (shows_echo (h b List.mem_cons_self) hshows)

/-- A byte that edits the line or ends it. -/
abbrev Typed (b : UInt8) : Prop := Edits b ∨ Ends b

/-- The stream up to its first carriage return or line feed. -/
theorem exists_front {stream : List UInt8} (htyped : ∀ b ∈ stream, Typed b)
    (hends : ∃ b ∈ stream, Ends b) :
    ∃ front b rest, stream = front ++ b :: rest ∧ (∀ b ∈ front, Edits b) ∧ Ends b := by
  induction stream with
  | nil =>
      obtain ⟨_, hmem, _⟩ := hends
      cases hmem
  | cons b stream ih =>
      rcases htyped b List.mem_cons_self with hedits | hfirst
      · have hlater : ∃ other ∈ stream, Ends other := by
          obtain ⟨other, hmem, hother⟩ := hends
          rcases List.mem_cons.mp hmem with rfl | hmem
          · exact absurd hother hedits.not_ends
          · exact ⟨other, hmem, hother⟩
        obtain ⟨front, last, rest, rfl, hfront, hlast⟩ :=
          ih (fun other hother => htyped other (List.mem_cons_of_mem b hother)) hlater
        exact ⟨b :: front, last, rest, rfl, List.forall_mem_cons.mpr ⟨hedits, hfront⟩, hlast⟩
      · exact ⟨[], b, stream, rfl, fun _ h => absurd h List.not_mem_nil, hfirst⟩

/-- One call on a stream: the line it returns, what it leaves, and the terminal after
every part of what it has read. -/
structure EditsAsShown (maxLen : Nat) (front rest : List UInt8) (call : Call) : Prop where
  result : call.result = .line (edited maxLen front)
  bounded : (edited maxLen front).length ≤ maxLen
  rest : call.rest = rest
  shown : ∀ seen, seen <+: front → ∃ echoed, echoed <+: call.echoed ∧
    sockReadline true maxLen seen = ⟨.waiting (edited maxLen seen), echoed, []⟩ ∧
    ∀ line prompt, ShowsText line prompt →
      ShowsText (written line echoed) (prompt ++ edited maxLen seen)

/-- What is stored and what is echoed agree, at both limits of the buffer. -/
theorem sockReadline_edits_as_shown (maxLen : Nat) (stream : List UInt8)
    (htyped : ∀ b ∈ stream, Typed b) (hends : ∃ b ∈ stream, Ends b) :
    ∃ front b rest, stream = front ++ b :: rest ∧ (∀ b ∈ front, ¬ Ends b) ∧ Ends b ∧
      EditsAsShown maxLen front rest (sockReadline true maxLen stream) := by
  obtain ⟨front, b, rest, rfl, hfront, hb⟩ := exists_front htyped hends
  have hcall := @sockReadline_returns maxLen front b hfront hb rest
  refine ⟨front, b, rest, rfl, fun b hmem => (hfront b hmem).not_ends, hb, ?_⟩
  rw [hcall]
  refine ⟨rfl, length_edited_le maxLen front, rfl, ?_⟩
  rintro seen ⟨unseen, rfl⟩
  have hseen : ∀ b ∈ seen, Edits b := fun b hmem => hfront b (List.mem_append_left unseen hmem)
  refine ⟨echoes maxLen [] seen, ?_, sockReadline_waits hseen, fun line prompt hshows => ?_⟩
  · rw [echoes_append, List.append_assoc]
    exact List.prefix_append _ _
  · exact shows_echoes hseen (by rw [List.append_nil]; exact hshows)

theorem typed_of_all {stream : List UInt8} (h : stream.all (fun b => decide (Typed b)) = true) :
    ∀ b ∈ stream, Typed b :=
  fun b hmem => of_decide_eq_true (List.all_eq_true.mp h b hmem)

theorem ends_of_any {stream : List UInt8} (h : stream.any (fun b => decide (Ends b)) = true) :
    ∃ b ∈ stream, Ends b :=
  (List.any_eq_true.mp h).imp fun _ hends => ⟨hends.1, of_decide_eq_true hends.2⟩

/-- Two bytes fit; an erasure of nothing and a byte too many are not echoed. -/
theorem sockReadline_edits_as_shown_full :
    (∀ b ∈ ascii "\x7fabc\x08d\x0de", Typed b) ∧ (∃ b ∈ ascii "\x7fabc\x08d\x0de", Ends b) ∧
    ∃ front b rest, ascii "\x7fabc\x08d\x0de" = front ++ b :: rest ∧
      (∀ b ∈ front, ¬ Ends b) ∧ Ends b ∧
      EditsAsShown 2 front rest (sockReadline true 2 (ascii "\x7fabc\x08d\x0de")) :=
  ⟨typed_of_all rfl, ends_of_any rfl,
    sockReadline_edits_as_shown 2 (ascii "\x7fabc\x08d\x0de") (typed_of_all rfl)
      (ends_of_any rfl)⟩

end Vnctlsd.Worker.LineEditing
