import Vnctlsd.Python.Value

/-! `shlex.split`: POSIX quoting, words split at white space only, no comments.
The lexer takes one character after the other. -/
namespace Vnctlsd.Python.Shlex

/-- Between words, in a word, inside quotes, or behind a backslash; a backslash
inside quotes remembers which. -/
inductive Mode where
  | blank
  | word
  | quote (mark : Char)
  | escape (back : Option Char)
  deriving DecidableEq

/-- The token and the finished words are kept in reverse. -/
structure Lexer where
  mode : Mode
  token : List Char
  quoted : Bool
  words : List String
  deriving DecidableEq

def initial : Lexer := ⟨.blank, [], false, []⟩

def isWhitespace (c : Char) : Bool := c == ' ' || c == '\t' || c == '\r' || c == '\n'
def isQuote (c : Char) : Bool := c == '"' || c == '\''
def isEscape (c : Char) : Bool := c == '\\'

def isEscapedQuote (c : Char) : Bool := c == '"'

def Lexer.push (lexer : Lexer) (c : Char) (mode : Mode) : Lexer :=
  { lexer with mode := mode, token := c :: lexer.token }

def Lexer.emit (lexer : Lexer) : Lexer :=
  if lexer.token.isEmpty && !lexer.quoted then { lexer with mode := .blank }
  else ⟨.blank, [], false, String.ofList lexer.token.reverse :: lexer.words⟩

/-- One character outside quotes; `mode` is where an ordinary one leads. -/
def Lexer.readPlain (lexer : Lexer) (c : Char) : Lexer :=
  if isWhitespace c then lexer.emit
  else if isQuote c then { lexer with mode := .quote c }
  else if isEscape c then { lexer with mode := .escape none }
  else lexer.push c .word

def Lexer.readQuoted (lexer : Lexer) (mark c : Char) : Lexer :=
  let lexer := { lexer with quoted := true }
  if c = mark then { lexer with mode := .word }
  else if isEscape c && isEscapedQuote mark then { lexer with mode := .escape (some mark) }
  else lexer.push c (.quote mark)

/-- Inside quotes only the quote itself and the backslash can be escaped; before
any other character the backslash stays. -/
def Lexer.readEscaped (lexer : Lexer) (back : Option Char) (c : Char) : Lexer :=
  match back with
  | none => lexer.push c .word
  | some mark =>
      if isEscape c || c == mark then lexer.push c (.quote mark)
      else (lexer.push '\\' (.quote mark)).push c (.quote mark)

def Lexer.step (lexer : Lexer) (c : Char) : Lexer :=
  match lexer.mode with
  | .blank | .word => lexer.readPlain c
  | .quote mark => lexer.readQuoted mark c
  | .escape back => lexer.readEscaped back c

def Lexer.finish (lexer : Lexer) : Py (List String) :=
  match lexer.mode with
  | .blank | .word => .ok lexer.emit.words.reverse
  | .quote _ => raise .valueError "No closing quotation"
  | .escape _ => raise .valueError "No escaped character"

def read (lexer : Lexer) (s : List Char) : Lexer := s.foldl Lexer.step lexer

def split (s : String) : Py (List String) := (read initial s.toList).finish

def Mode.quoting : Mode → Bool
  | .quote _ | .escape (some _) => true
  | .blank | .word | .escape none => false

/-- Where text leads that means nothing to the lexer, and what is left of a
backslash before it. -/
def Mode.settle : Mode → Mode
  | .quote mark | .escape (some mark) => .quote mark
  | .blank | .word | .escape none => .word

def Mode.lead : Mode → List Char
  | .escape (some _) => ['\\']
  | .blank | .word | .quote _ | .escape none => []

/-- Text that means nothing outside quotes; inside them white space does not either. -/
def inert (quoting : Bool) (c : Char) : Bool :=
  !isQuote c && !isEscape c && (quoting || !isWhitespace c)

def Lexer.absorb (lexer : Lexer) (s : List Char) : Lexer :=
  { lexer with
    mode := lexer.mode.settle
    token := s.reverse ++ lexer.mode.lead ++ lexer.token
    quoted := lexer.quoted || lexer.mode.quoting }

/-- A quotation is opened by a quote, and a backslash inside it has been read. -/
def Lexer.Sound (lexer : Lexer) : Prop :=
  match lexer.mode with
  | .blank | .word | .escape none => True
  | .quote mark => isQuote mark = true
  | .escape (some mark) => isQuote mark = true ∧ lexer.quoted = true

theorem inert_cases {quoting : Bool} {c : Char} (h : inert quoting c = true) :
    isQuote c = false ∧ isEscape c = false ∧ (quoting = false → isWhitespace c = false) := by
  simp only [inert, Bool.and_eq_true, Bool.not_eq_true', Bool.or_eq_true] at h
  obtain ⟨⟨hquote, hescape⟩, hspace⟩ := h
  refine ⟨hquote, hescape, ?_⟩
  rintro rfl
  exact hspace.resolve_left Bool.false_ne_true

theorem ne_of_isQuote {c mark : Char} (hmark : isQuote mark = true) (hc : isQuote c = false) :
    c ≠ mark := by
  rintro rfl
  rw [hc] at hmark
  cases hmark

theorem step_inert {lexer : Lexer} {c : Char} (hsound : lexer.Sound)
    (hc : inert lexer.mode.quoting c = true) :
    lexer.step c = lexer.absorb [c] := by
  obtain ⟨mode, token, quoted, words⟩ := lexer
  obtain ⟨hquote, hescape, hspace⟩ := inert_cases hc
  cases mode with
  | blank =>
      simp [Lexer.step, Lexer.readPlain, Lexer.push, Lexer.absorb, hspace rfl, hquote, hescape,
        Mode.settle, Mode.lead, Mode.quoting]
  | word =>
      simp [Lexer.step, Lexer.readPlain, Lexer.push, Lexer.absorb, hspace rfl, hquote, hescape,
        Mode.settle, Mode.lead, Mode.quoting]
  | quote mark =>
      have hne : c ≠ mark := ne_of_isQuote hsound hquote
      simp [Lexer.step, Lexer.readQuoted, Lexer.push, Lexer.absorb, hne, hescape, Mode.settle,
        Mode.lead, Mode.quoting]
  | escape back =>
      cases back with
      | none =>
          simp [Lexer.step, Lexer.readEscaped, Lexer.push, Lexer.absorb, Mode.settle, Mode.lead,
            Mode.quoting]
      | some mark =>
          obtain ⟨hmark, hquoted⟩ := hsound
          have hne : c ≠ mark := ne_of_isQuote hmark hquote
          simp only at hquoted
          simp [Lexer.step, Lexer.readEscaped, Lexer.push, Lexer.absorb, hne, hescape, hquoted,
            Mode.settle, Mode.lead, Mode.quoting]

theorem sound_absorb {lexer : Lexer} (hsound : lexer.Sound) (s : List Char) :
    (lexer.absorb s).Sound := by
  obtain ⟨mode, token, quoted, words⟩ := lexer
  cases mode with
  | blank | word => trivial
  | quote mark => exact hsound
  | escape back =>
      cases back with
      | none => trivial
      | some mark => exact hsound.1

theorem absorb_absorb (lexer : Lexer) (s t : List Char) :
    (lexer.absorb s).absorb t = lexer.absorb (s ++ t) := by
  obtain ⟨mode, token, quoted, words⟩ := lexer
  cases mode with
  | blank | word => simp [Lexer.absorb, Mode.settle, Mode.lead, Mode.quoting]
  | quote mark => simp [Lexer.absorb, Mode.settle, Mode.lead, Mode.quoting]
  | escape back =>
      cases back <;> simp [Lexer.absorb, Mode.settle, Mode.lead, Mode.quoting]

/-- Text that is not empty and means nothing to the lexer goes into the word as it
is. -/
theorem read_inert {lexer : Lexer} {s : List Char} (hsound : lexer.Sound) (hne : s ≠ [])
    (hinert : ∀ c ∈ s, inert lexer.mode.quoting c = true) :
    read lexer s = lexer.absorb s := by
  induction s generalizing lexer with
  | nil => exact absurd rfl hne
  | cons c rest ih =>
      obtain ⟨hc, hrest⟩ := List.forall_mem_cons.mp hinert
      have hread : read lexer (c :: rest) = read (lexer.absorb [c]) rest := by
        rw [← step_inert hsound hc]
        rfl
      rw [hread]
      by_cases hnil : rest = []
      · rw [hnil]
        rfl
      · have hquoting : (lexer.absorb [c]).mode.quoting = lexer.mode.quoting := by
          cases hmode : lexer.mode with
          | blank | word | quote => simp [Lexer.absorb, hmode, Mode.settle, Mode.quoting]
          | escape back =>
              cases back <;> simp [Lexer.absorb, hmode, Mode.settle, Mode.quoting]
        rw [ih (sound_absorb hsound [c]) hnil (by rwa [hquoting]), absorb_absorb]
        rfl

theorem sound_step {lexer : Lexer} (hsound : lexer.Sound) (c : Char) : (lexer.step c).Sound := by
  obtain ⟨mode, token, quoted, words⟩ := lexer
  have hplain (mode : Mode) : (Lexer.readPlain ⟨mode, token, quoted, words⟩ c).Sound := by
    unfold Lexer.readPlain
    split
    · unfold Lexer.emit
      split <;> trivial
    · split
      · rename_i hquote
        exact hquote
      · split <;> trivial
  cases mode with
  | blank | word => exact hplain _
  | quote mark =>
      simp only [Lexer.step, Lexer.readQuoted]
      split
      · trivial
      · split
        · exact ⟨hsound, rfl⟩
        · exact hsound
  | escape back =>
      cases back with
      | none => trivial
      | some mark =>
          simp only [Lexer.step, Lexer.readEscaped]
          split <;> exact hsound.1

theorem sound_read {lexer : Lexer} (hsound : lexer.Sound) (s : List Char) :
    (read lexer s).Sound := by
  induction s generalizing lexer with
  | nil => exact hsound
  | cons c rest ih => exact ih (sound_step hsound c)

theorem read_append (lexer : Lexer) (s t : List Char) :
    read lexer (s ++ t) = read (read lexer s) t :=
  List.foldl_append

example : split "virsh -c 'qemu:///system'  console \"a \\\"b\" ''" =
    .ok ["virsh", "-c", "qemu:///system", "console", "a \"b", ""] := by decide
example : split "echo it's" = raise .valueError "No closing quotation" := by decide

end Vnctlsd.Python.Shlex
