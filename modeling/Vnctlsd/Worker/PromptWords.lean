import Vnctlsd.Python.Decoding
import Vnctlsd.Python.Words
import Vnctlsd.Worker.LineInput

/-! The words that a command is made of, and those a client can have made of his bytes:
they pass through the line editing, the decoding and `str.split()`. -/
namespace Vnctlsd.Worker.PromptWords
open Vnctlsd.Python Vnctlsd.Python.Utf8 Vnctlsd.Python.Text SockReadline

/-- `line_b.decode('utf-8', errors='replace').strip().split()` -/
def parts (line : List UInt8) : List String := split (strip (decode line))

/-- A word that the line editing lets through. -/
structure Typable (word : String) : Prop where
  isWord : IsWord word.toList
  editing : ∀ c ∈ word.toList, c ≠ '\x03' ∧ c ≠ '\x08' ∧ c ≠ '\x7f'

theorem typable_of_all {word : String} (hne : word.toList ≠ [])
    (h : word.toList.all (fun c => decide (Text.isSpace c = false ∧
      c ≠ '\x03' ∧ c ≠ '\x08' ∧ c ≠ '\x7f')) = true) : Typable word := by
  have hchar : ∀ c ∈ word.toList, Text.isSpace c = false ∧ c ≠ '\x03' ∧ c ≠ '\x08' ∧
      c ≠ '\x7f' := fun c hc => of_decide_eq_true (List.all_eq_true.mp h c hc)
  exact ⟨⟨hne, fun c hc => (hchar c hc).1⟩, fun c hc => (hchar c hc).2⟩

theorem cost_pos_of_ne_nil {text : List Char} (h : text ≠ []) : 0 < cost text := by
  obtain ⟨c, rest, rfl⟩ := List.exists_cons_of_ne_nil h
  have hc := List.length_pos_iff.mpr (typedChar_ne_nil c)
  rw [cost_cons]
  omega

theorem length_le_cost (text : List Char) : text.length ≤ cost text := by
  induction text with
  | nil => exact Nat.le_refl _
  | cons c rest ih =>
      have hc := List.length_pos_iff.mpr (typedChar_ne_nil c)
      rw [cost_cons, List.length_cons]
      omega

theorem editing_of_line {line : List UInt8} (htyped : Typed line) {c : Char}
    (hmem : c ∈ decodeFrom 0 line) : c ≠ '\x03' ∧ c ≠ '\x08' ∧ c ≠ '\x7f' := by
  have hdecodes := decodes_decodeFrom line
  refine ⟨?_, ?_, ?_⟩
  · rintro rfl
    exact (htyped _ (hdecodes.mem_of_ascii (by decide) hmem)).2.2 rfl
  · rintro rfl
    exact (htyped _ (hdecodes.mem_of_ascii (by decide) hmem)).2.1 (.inr rfl)
  · rintro rfl
    exact (htyped _ (hdecodes.mem_of_ascii (by decide) hmem)).2.1 (.inl rfl)

/-- The first two words of a line with the space between them fit in it. -/
theorem typable_of_parts {line : List UInt8} {first second : String} {others : List String}
    (htyped : Typed line) (h : parts line = first :: second :: others) :
    Typable first ∧ Typable second ∧ cost first.toList + cost second.toList < line.length := by
  obtain ⟨hfirst, hsecond, before, gap, between, after, htext⟩ := twoWords_of_split h
  obtain ⟨front, back, hline⟩ := strip_infix (decode line)
  rw [htext, decode, String.toList_ofList] at hline
  have hmem : ∀ c, c ∈ first.toList ∨ c ∈ second.toList → c ∈ decodeFrom 0 line := by
    intro c hc
    rw [hline]
    rcases hc with hc | hc <;> simp [hc]
  refine ⟨⟨hfirst, fun c hc => editing_of_line htyped (hmem c (.inl hc))⟩,
    ⟨hsecond, fun c hc => editing_of_line htyped (hmem c (.inr hc))⟩, ?_⟩
  have hle := (decodes_decodeFrom line).cost_le
  have hgap : 0 < cost (gap :: between) := cost_pos_of_ne_nil (List.cons_ne_nil _ _)
  rw [hline] at hle
  simp only [cost_append] at hle
  omega

theorem typed_of_editing {text : List Char}
    (h : ∀ c ∈ text, c ≠ '\x0d' ∧ c ≠ '\x0a' ∧ c ≠ '\x03' ∧ c ≠ '\x08' ∧ c ≠ '\x7f') :
    Typed (typed text) := by
  intro b hb
  obtain ⟨c, hc, hbyte⟩ := List.mem_flatMap.mp hb
  obtain ⟨hreturn, hnewline, hinterrupt, hback, hdelete⟩ := h c hc
  by_cases hmark : c = '\ufffd'
  · rw [typedChar, if_pos hmark] at hbyte
    obtain rfl := List.mem_singleton.mp hbyte
    decide
  · rw [typedChar, if_neg hmark] at hbyte
    have hne : ∀ code : UInt8, code.toNat < 0x80 → c ≠ Char.ofNat code.toNat → b ≠ code := by
      rintro code hascii hother rfl
      rcases mem_utf8EncodeChar hbyte with ⟨-, heq⟩ | ⟨hhigh, -⟩
      · exact hother (by rw [heq, Char.ofNat_toNat])
      · omega
    exact ⟨not_or.mpr ⟨hne _ (by decide) hreturn, hne _ (by decide) hnewline⟩,
      not_or.mpr ⟨hne _ (by decide) hdelete, hne _ (by decide) hback⟩,
      hne _ (by decide) hinterrupt⟩

theorem Typable.plain {word : String} (h : Typable word) {c : Char} (hc : c ∈ word.toList) :
    c ≠ '\x0d' ∧ c ≠ '\x0a' ∧ c ≠ '\x03' ∧ c ≠ '\x08' ∧ c ≠ '\x7f' := by
  have hspace := h.isWord.noSpace c hc
  refine ⟨?_, ?_, h.editing c hc⟩
  · rintro rfl
    exact absurd hspace (by decide)
  · rintro rfl
    exact absurd hspace (by decide)

/-- The shortest line with the two words. -/
def lineOf (first second : String) : List UInt8 :=
  typed (first.toList ++ ' ' :: second.toList)

variable {first second : String}

theorem typed_lineOf (hfirst : Typable first) (hsecond : Typable second) :
    Typed (lineOf first second) := by
  apply typed_of_editing
  intro c hc
  rcases List.mem_append.mp hc with hc | hc
  · exact hfirst.plain hc
  · rcases List.mem_cons.mp hc with rfl | hc
    · decide
    · exact hsecond.plain hc

theorem length_lineOf (first second : String) :
    (lineOf first second).length = cost first.toList + 1 + cost second.toList := by
  have hspace : cost [' '] = 1 := rfl
  rw [lineOf, ← cost, List.append_cons, cost_append, cost_append, hspace]

theorem parts_lineOf (hfirst : IsWord first.toList) (hsecond : IsWord second.toList) :
    parts (lineOf first second) = [first, second] := by
  have hhead : ∀ c, (first.toList ++ ' ' :: second.toList).head? = some c → isSpace c = false := by
    intro c hc
    rw [List.head?_append_of_ne_nil _ hfirst.nonempty] at hc
    exact hfirst.noSpace c (List.mem_of_head? hc)
  have hlast : ∀ c, (first.toList ++ ' ' :: second.toList).getLast? = some c →
      isSpace c = false := by
    intro c hc
    rw [List.append_cons, List.getLast?_append_of_ne_nil _ hsecond.nonempty] at hc
    exact hsecond.noSpace c (List.mem_of_getLast? hc)
  rw [parts, lineOf, decode, decodeFrom_typed, strip_eq_self hhead hlast,
    split_twoWords hfirst hsecond]

/-- What can be the first two words of a line. -/
theorem parts_iff (first second : String) :
    (∃ bytes line others, (sockReadline true maxLine bytes).result = .line line ∧
        parts line = first :: second :: others) ↔
      Typable first ∧ Typable second ∧ cost first.toList + cost second.toList < maxLine := by
  constructor
  · rintro ⟨bytes, line, others, hline, hparts⟩
    obtain ⟨htyped, hlength⟩ := (line_iff true maxLine line).mp ⟨bytes, hline⟩
    obtain ⟨hfirst, hsecond, hfits⟩ := typable_of_parts htyped hparts
    exact ⟨hfirst, hsecond, by omega⟩
  · rintro ⟨hfirst, hsecond, hfits⟩
    have hlength := length_lineOf first second
    obtain ⟨bytes, hline⟩ := (line_iff true maxLine (lineOf first second)).mpr
      ⟨typed_lineOf hfirst hsecond, by omega⟩
    exact ⟨bytes, _, [], hline, parts_lineOf hfirst.isWord hsecond.isWord⟩

end Vnctlsd.Worker.PromptWords
