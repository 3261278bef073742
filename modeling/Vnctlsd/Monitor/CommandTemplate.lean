import Mathlib.Algebra.GroupWithZero.Nat
import Mathlib.Data.List.Forall2
import Vnctlsd.Monitor.Commands

/-! Command templates whose only placeholder is `{name}`: filling in the name before
the words are split, against filling it into each word. -/
namespace Vnctlsd.Monitor.CommandTemplate
open Vnctlsd.Python Shlex

/-- A template piece by piece; a brace that is text is written twice. -/
inductive Piece where
  | char (c : Char) (plain : Format.isBrace c = false)
  | openBrace
  | closeBrace
  | name
  deriving DecidableEq

def Piece.source : Piece → List Char
  | .char c _ => [c]
  | .openBrace => ['{', '{']
  | .closeBrace => ['}', '}']
  | .name => ['{', 'n', 'a', 'm', 'e', '}']

def Piece.fill (n : List Char) : Piece → List Char
  | .char c _ => [c]
  | .openBrace => ['{']
  | .closeBrace => ['}']
  | .name => n

def source (pieces : List Piece) : List Char := pieces.flatMap Piece.source

def fill (n : List Char) (pieces : List Piece) : List Char := pieces.flatMap (Piece.fill n)

theorem renderField_name (rt : Runtime) (n : String) (others : List (String × PyVal))
    (expandSpec : List Char → Py (List Char)) :
    Format.renderField rt ⟨false, ("name", .str n) :: others⟩ expandSpec
      ⟨['n', 'a', 'm', 'e'], none, [], false⟩ = .ok n.toList := by
  have hobject : Format.fieldObject rt ⟨false, ("name", .str n) :: others⟩
      ['n', 'a', 'm', 'e'] = .ok (.str n) := rfl
  simp only [Format.renderField, hobject, bind, Except.bind, Format.convert, Format.formatValue,
    pure, Except.pure]
  rfl

theorem renderAll_name (rt : Runtime) (n : String) (others : List (String × PyVal))
    (expandSpec : List Char → Py (List Char)) (fuel : Nat) (s : List Char) :
    Format.renderAll rt ⟨false, ("name", .str n) :: others⟩ expandSpec (fuel + 1)
        (Piece.source .name ++ s) =
      (Format.renderAll rt ⟨false, ("name", .str n) :: others⟩ expandSpec fuel s).map
        (n.toList ++ ·) := by
  have hne : Piece.source .name ++ s ≠ [] := List.cons_ne_nil _ _
  rw [Format.renderAll_succ rt _ expandSpec fuel hne]
  have hnext : Format.nextMarkup (Piece.source .name ++ s) =
      .ok ([], some ⟨['n', 'a', 'm', 'e'], none, [], false⟩, s) := rfl
  rw [hnext]
  simp only [bind, Except.bind, Format.fieldText, renderField_name]
  cases Format.renderAll rt _ expandSpec fuel s <;> rfl

theorem renderAll_source (rt : Runtime) (n : String) (others : List (String × PyVal))
    (expandSpec : List Char → Py (List Char)) {fuel : Nat} {pieces : List Piece}
    (hfuel : (source pieces).length ≤ fuel) :
    Format.renderAll rt ⟨false, ("name", .str n) :: others⟩ expandSpec fuel (source pieces) =
      .ok (fill n.toList pieces) := by
  induction pieces generalizing fuel with
  | nil => cases fuel <;> rfl
  | cons piece rest ih =>
      have hsource : source (piece :: rest) = piece.source ++ source rest := rfl
      have hfill : fill n.toList (piece :: rest) =
          piece.fill n.toList ++ fill n.toList rest := rfl
      rw [hsource, List.length_append] at hfuel
      rw [hsource, hfill]
      cases fuel with
      | zero => cases piece <;> simp [Piece.source] at hfuel
      | succ fuel =>
          cases piece with
          | char c plain =>
              have hrest : (source rest).length ≤ fuel + 1 := by
                simp only [Piece.source, List.length_singleton] at hfuel
                omega
              have hcons := Format.renderAll_cons rt ⟨false, ("name", .str n) :: others⟩
                expandSpec fuel (source rest) plain
              rw [ih hrest] at hcons
              exact hcons
          | openBrace =>
              have hrest : (source rest).length ≤ fuel := by
                simp only [Piece.source, List.length_cons, List.length_nil] at hfuel
                omega
              have hopen := Format.renderAll_openBrace rt ⟨false, ("name", .str n) :: others⟩
                expandSpec fuel (source rest)
              rw [ih hrest] at hopen
              exact hopen
          | closeBrace =>
              have hrest : (source rest).length ≤ fuel := by
                simp only [Piece.source, List.length_cons, List.length_nil] at hfuel
                omega
              have hclose := Format.renderAll_closeBrace rt ⟨false, ("name", .str n) :: others⟩
                expandSpec fuel (source rest)
              rw [ih hrest] at hclose
              exact hclose
          | name =>
              have hrest : (source rest).length ≤ fuel := by
                simp only [Piece.source, List.length_cons, List.length_nil] at hfuel
                omega
              have hname := renderAll_name rt n others expandSpec fuel (source rest)
              rw [ih hrest] at hname
              exact hname

/-- Filling in the name gives every piece its text. -/
theorem format_source (rt : Runtime) (n : String) (others : List (String × PyVal))
    (pieces : List Piece) :
    Format.format rt (.str (String.ofList (source pieces))) (("name", .str n) :: others) =
      .ok (String.ofList (fill n.toList pieces)) := by
  unfold Format.format Format.recursionDepth Format.render
  simp only [String.toList_ofList]
  rw [renderAll_source rt n others _ (Nat.le_refl _)]
  rfl

/-- A spelling gives every piece some text: a character itself, a brace what means
nothing to the lexer. -/
structure Spelling (f : Piece → List Char) : Prop where
  char : ∀ c plain, f (.char c plain) = [c]
  nonempty : ∀ piece, f piece ≠ []
  openBrace : ∀ quoting, ∀ c ∈ f .openBrace, inert quoting c = true
  closeBrace : ∀ quoting, ∀ c ∈ f .closeBrace, inert quoting c = true

/-- Two lexers have read one list of pieces in two spellings, and `token` and
`words` are what they have made of it. -/
structure Lockstep (f g : Piece → List Char) (left right : Lexer) (token : List Piece)
    (words : List (List Piece)) : Prop where
  mode : left.mode = right.mode
  quoted : left.quoted = right.quoted
  leftToken : left.token = (token.flatMap f).reverse
  rightToken : right.token = (token.flatMap g).reverse
  leftWords : left.words = words.map fun word => String.ofList (word.flatMap f)
  rightWords : right.words = words.map fun word => String.ofList (word.flatMap g)

/-- The placeholders that have been read. -/
def names (token : List Piece) (words : List (List Piece)) : Nat :=
  token.count .name + (words.map (List.count Piece.name)).sum

def leadPieces : Mode → List Piece
  | .escape (some _) => [.char '\\' rfl]
  | .blank | .word | .quote _ | .escape none => []

section

variable {f g : Piece → List Char} {left right : Lexer} {token : List Piece}
  {words : List (List Piece)}

theorem flatMap_eq_nil_iff (hf : Spelling f) (pieces : List Piece) :
    pieces.flatMap f = [] ↔ pieces = [] := by
  cases pieces with
  | nil => simp
  | cons piece rest => simp [hf.nonempty piece]

theorem flatMap_leadPieces (hf : Spelling f) (mode : Mode) :
    (leadPieces mode).flatMap f = mode.lead := by
  cases mode with
  | blank | word | quote => rfl
  | escape back =>
      cases back with
      | none => rfl
      | some mark => exact congrArg (· ++ []) (hf.char '\\' rfl)

theorem Lockstep.setMode (h : Lockstep f g left right token words) (mode : Mode) :
    Lockstep f g { left with mode := mode } { right with mode := mode } token words :=
  ⟨rfl, h.quoted, h.leftToken, h.rightToken, h.leftWords, h.rightWords⟩

theorem Lockstep.setQuoted (h : Lockstep f g left right token words) :
    Lockstep f g { left with quoted := true } { right with quoted := true } token words :=
  ⟨h.mode, rfl, h.leftToken, h.rightToken, h.leftWords, h.rightWords⟩

theorem Lockstep.push (hf : Spelling f) (hg : Spelling g)
    (h : Lockstep f g left right token words) {c : Char} (plain : Format.isBrace c = false)
    (mode : Mode) :
    Lockstep f g (left.push c mode) (right.push c mode) (token ++ [.char c plain]) words := by
  refine ⟨rfl, h.quoted, ?_, ?_, h.leftWords, h.rightWords⟩
  · simp [Lexer.push, h.leftToken, hf.char]
  · simp [Lexer.push, h.rightToken, hg.char]

theorem Lockstep.emit (hf : Spelling f) (hg : Spelling g)
    (h : Lockstep f g left right token words) :
    ∃ words', Lockstep f g left.emit right.emit [] words' ∧
      names [] words' = names token words := by
  have hleft : left.token.isEmpty = token.isEmpty := by
    rw [h.leftToken, List.isEmpty_reverse, Bool.eq_iff_iff, List.isEmpty_iff, List.isEmpty_iff]
    exact flatMap_eq_nil_iff hf token
  have hright : right.token.isEmpty = token.isEmpty := by
    rw [h.rightToken, List.isEmpty_reverse, Bool.eq_iff_iff, List.isEmpty_iff, List.isEmpty_iff]
    exact flatMap_eq_nil_iff hg token
  have hsame : (right.token.isEmpty && !right.quoted) = (left.token.isEmpty && !left.quoted) := by
    rw [hleft, hright, h.quoted]
  unfold Lexer.emit
  rw [hsame]
  split
  · rename_i hempty
    rw [hleft] at hempty
    have hnil : token = [] := List.isEmpty_iff.mp (Bool.and_eq_true_iff.mp hempty).1
    subst hnil
    exact ⟨words, h.setMode .blank, rfl⟩
  · refine ⟨token :: words, ⟨rfl, rfl, rfl, rfl, ?_, ?_⟩, ?_⟩
    · simp [h.leftToken, h.leftWords]
    · simp [h.rightToken, h.rightWords]
    · simp [names]

/-- At the end of the template both lexers have the words, or neither. -/
theorem Lockstep.finish (hf : Spelling f) (hg : Spelling g)
    (h : Lockstep f g left right token words) {texts : List String}
    (hfinish : left.finish = .ok texts) :
    ∃ words', texts = words'.map (fun word => String.ofList (word.flatMap f)) ∧
      right.finish = .ok (words'.map fun word => String.ofList (word.flatMap g)) ∧
      names [] words' = names token words := by
  obtain ⟨words', hemit, hnames⟩ := h.emit hf hg
  have hboth : left.finish = .ok left.emit.words.reverse ∧
      right.finish = .ok right.emit.words.reverse := by
    unfold Lexer.finish at hfinish ⊢
    rw [← h.mode]
    cases hmode : left.mode with
    | blank | word => exact ⟨rfl, rfl⟩
    | quote mark | escape back =>
        rw [hmode] at hfinish
        cases hfinish
  rw [hboth.1] at hfinish
  obtain rfl := Except.ok.inj hfinish
  refine ⟨words'.reverse, ?_, ?_, ?_⟩
  · rw [hemit.leftWords, List.map_reverse]
  · rw [hboth.2, hemit.rightWords, List.map_reverse]
  · rw [← hnames]
    simp [names, List.map_reverse, List.sum_reverse]

theorem names_push {c : Char} (plain : Format.isBrace c = false) :
    names (token ++ [.char c plain]) words = names token words := by
  simp [names]

theorem Lockstep.readPlain (hf : Spelling f) (hg : Spelling g)
    (h : Lockstep f g left right token words) {c : Char} (plain : Format.isBrace c = false) :
    ∃ token' words', Lockstep f g (left.readPlain c) (right.readPlain c) token' words' ∧
      names token' words' = names token words := by
  unfold Lexer.readPlain
  split
  · obtain ⟨words', hemit, hnames⟩ := h.emit hf hg
    exact ⟨[], words', hemit, hnames⟩
  · split
    · exact ⟨token, words, h.setMode _, rfl⟩
    · split
      · exact ⟨token, words, h.setMode _, rfl⟩
      · exact ⟨_, words, h.push hf hg plain .word, names_push plain⟩

theorem Lockstep.readQuoted (hf : Spelling f) (hg : Spelling g)
    (h : Lockstep f g left right token words) (mark : Char) {c : Char}
    (plain : Format.isBrace c = false) :
    ∃ token' words', Lockstep f g (left.readQuoted mark c) (right.readQuoted mark c) token' words' ∧
      names token' words' = names token words := by
  unfold Lexer.readQuoted
  dsimp only
  split
  · exact ⟨token, words, h.setQuoted.setMode _, rfl⟩
  · split
    · exact ⟨token, words, h.setQuoted.setMode _, rfl⟩
    · exact ⟨_, words, h.setQuoted.push hf hg plain _, names_push plain⟩

theorem Lockstep.readEscaped (hf : Spelling f) (hg : Spelling g)
    (h : Lockstep f g left right token words) (back : Option Char) {c : Char}
    (plain : Format.isBrace c = false) :
    ∃ token' words', Lockstep f g (left.readEscaped back c) (right.readEscaped back c)
        token' words' ∧ names token' words' = names token words := by
  cases back with
  | none => exact ⟨_, words, h.push hf hg plain .word, names_push plain⟩
  | some mark =>
      unfold Lexer.readEscaped
      dsimp only
      split
      · exact ⟨_, words, h.push hf hg plain _, names_push plain⟩
      · have hslash : Format.isBrace '\\' = false := rfl
        refine ⟨_, words, (h.push hf hg hslash _).push hf hg plain _, ?_⟩
        rw [names_push, names_push]

/-- A character outside placeholders and braces moves both lexers alike. -/
theorem Lockstep.step (hf : Spelling f) (hg : Spelling g)
    (h : Lockstep f g left right token words) {c : Char} (plain : Format.isBrace c = false) :
    ∃ token' words', Lockstep f g (left.step c) (right.step c) token' words' ∧
      names token' words' = names token words := by
  unfold Lexer.step
  rw [← h.mode]
  cases left.mode with
  | blank | word => exact h.readPlain hf hg plain
  | quote mark => exact h.readQuoted hf hg mark plain
  | escape back => exact h.readEscaped hf hg back plain

/-- Any other piece goes into the word, each lexer taking its own spelling. -/
theorem Lockstep.absorb (hf : Spelling f) (hg : Spelling g)
    (h : Lockstep f g left right token words) (piece : Piece) :
    Lockstep f g (left.absorb (f piece)) (right.absorb (g piece))
      (token ++ leadPieces left.mode ++ [piece]) words := by
  refine ⟨?_, ?_, ?_, ?_, h.leftWords, h.rightWords⟩
  · simp [Lexer.absorb, h.mode]
  · simp [Lexer.absorb, h.mode, h.quoted]
  · have hlead : left.mode.lead.reverse = left.mode.lead := by
      cases left.mode with
      | blank | word | quote => rfl
      | escape back => cases back <;> rfl
    simp [Lexer.absorb, h.leftToken, flatMap_leadPieces hf, hlead]
  · have hlead : right.mode.lead.reverse = right.mode.lead := by
      cases right.mode with
      | blank | word | quote => rfl
      | escape back => cases back <;> rfl
    simp [Lexer.absorb, h.rightToken, flatMap_leadPieces hg, hlead, h.mode]

theorem names_absorb (mode : Mode) (piece : Piece) :
    names (token ++ leadPieces mode ++ [piece]) words =
      names token words + if piece = .name then 1 else 0 := by
  have hlead : (leadPieces mode).count .name = 0 := by
    cases mode with
    | blank | word | quote => rfl
    | escape back => cases back <;> simp [leadPieces]
  simp only [names, List.count_append, hlead, List.count_singleton, beq_iff_eq]
  split <;> omega

theorem Lockstep.sound_right (h : Lockstep f g left right token words) (hsound : left.Sound) :
    right.Sound := by
  unfold Lexer.Sound at hsound ⊢
  rw [← h.mode, ← h.quoted]
  exact hsound

/-- One piece in both spellings; the name must mean nothing to the lexers where it
stands. -/
theorem Lockstep.piece (hf : Spelling f) (hg : Spelling g)
    (h : Lockstep f g left right token words) (hsound : left.Sound) (piece : Piece)
    (hname : piece = .name → (∀ c ∈ f .name, inert left.mode.quoting c = true) ∧
      ∀ c ∈ g .name, inert left.mode.quoting c = true) :
    ∃ token' words', Lockstep f g (read left (f piece)) (read right (g piece)) token' words' ∧
      names token' words' = names token words + if piece = .name then 1 else 0 := by
  have habsorb (hleft : ∀ c ∈ f piece, inert left.mode.quoting c = true)
      (hright : ∀ c ∈ g piece, inert left.mode.quoting c = true) :
      ∃ token' words', Lockstep f g (read left (f piece)) (read right (g piece)) token' words' ∧
        names token' words' = names token words + if piece = .name then 1 else 0 := by
    rw [read_inert hsound (hf.nonempty piece) hleft,
      read_inert (h.sound_right hsound) (hg.nonempty piece) (by rwa [← h.mode])]
    exact ⟨_, words, h.absorb hf hg piece, names_absorb left.mode piece⟩
  cases piece with
  | char c plain =>
      obtain ⟨token', words', hstep, hnames⟩ := h.step hf hg plain
      rw [hf.char, hg.char]
      exact ⟨token', words', hstep, by simpa using hnames⟩
  | openBrace => exact habsorb (hf.openBrace _) (hg.openBrace _)
  | closeBrace => exact habsorb (hf.closeBrace _) (hg.closeBrace _)
  | name => exact habsorb (hname rfl).1 (hname rfl).2

/-- A whole template in both spellings. -/
theorem Lockstep.run (hf : Spelling f) (hg : Spelling g) (pieces : List Piece)
    (h : Lockstep f g left right token words) (hsound : left.Sound)
    (hname : ∀ before after, pieces = before ++ .name :: after →
      (∀ c ∈ f .name, inert (read left (before.flatMap f)).mode.quoting c = true) ∧
        ∀ c ∈ g .name, inert (read left (before.flatMap f)).mode.quoting c = true) :
    ∃ token' words', Lockstep f g (read left (pieces.flatMap f)) (read right (pieces.flatMap g))
        token' words' ∧ names token' words' = names token words + pieces.count .name := by
  induction pieces generalizing left right token words with
  | nil => exact ⟨token, words, h, by simp⟩
  | cons piece rest ih =>
      have hfirst : piece = .name → (∀ c ∈ f .name, inert left.mode.quoting c = true) ∧
          ∀ c ∈ g .name, inert left.mode.quoting c = true := by
        rintro rfl
        exact hname [] rest rfl
      obtain ⟨token₁, words₁, hpiece, hnames₁⟩ := h.piece hf hg hsound piece hfirst
      have hrest : ∀ before after, rest = before ++ .name :: after →
          (∀ c ∈ f .name,
            inert (read (read left (f piece)) (before.flatMap f)).mode.quoting c = true) ∧
          ∀ c ∈ g .name,
            inert (read (read left (f piece)) (before.flatMap f)).mode.quoting c = true := by
        rintro before after rfl
        have hthere := hname (piece :: before) after rfl
        rwa [List.flatMap_cons, read_append] at hthere
      obtain ⟨token₂, words₂, hrun, hnames₂⟩ := ih hpiece (sound_read hsound _) hrest
      rw [List.flatMap_cons, List.flatMap_cons, read_append, read_append]
      refine ⟨token₂, words₂, hrun, ?_⟩
      rw [hnames₂, hnames₁, List.count_cons]
      simp only [beq_iff_eq]
      omega

end

theorem inert_braces : ∀ quoting, inert quoting '{' = true ∧ inert quoting '}' = true := by
  decide

theorem spelling_source : Spelling Piece.source where
  char _ _ := rfl
  nonempty piece := by cases piece <;> exact List.cons_ne_nil _ _
  openBrace quoting := by
    have hbrace := (inert_braces quoting).1
    exact List.forall_mem_cons.mpr ⟨hbrace, List.forall_mem_singleton.mpr hbrace⟩
  closeBrace quoting := by
    have hbrace := (inert_braces quoting).2
    exact List.forall_mem_cons.mpr ⟨hbrace, List.forall_mem_singleton.mpr hbrace⟩

theorem spelling_fill {n : List Char} (hne : n ≠ []) : Spelling (Piece.fill n) where
  char _ _ := rfl
  nonempty piece := by
    cases piece with
    | name => exact hne
    | char | openBrace | closeBrace => exact List.cons_ne_nil _ _
  openBrace quoting := List.forall_mem_singleton.mpr (inert_braces quoting).1
  closeBrace quoting := List.forall_mem_singleton.mpr (inert_braces quoting).2

theorem inert_source_name (quoting : Bool) :
    ∀ c ∈ Piece.source .name, inert quoting c = true := by
  have hall : (Piece.source .name).all (inert quoting) = true := by cases quoting <;> rfl
  exact List.all_eq_true.mp hall

theorem lockstep_initial (f g : Piece → List Char) : Lockstep f g initial initial [] [] :=
  ⟨rfl, rfl, rfl, rfl, rfl, rfl⟩

theorem sound_initial : initial.Sound := trivial

/-- Every placeholder stands where the name is read as it is. -/
def InertWhereNamed (n : List Char) (pieces : List Piece) : Prop :=
  ∀ before after, pieces = before ++ .name :: after →
    ∀ c ∈ n, inert (read initial (source before)).mode.quoting c = true

/-- Splitting commutes with filling in a name that is inert wherever it stands. -/
theorem split_fill {n : List Char} {pieces : List Piece} (hne : n ≠ [])
    (hinert : InertWhereNamed n pieces) {texts : List String}
    (hsplit : split (String.ofList (source pieces)) = .ok texts) :
    ∃ words : List (List Piece), texts = words.map (fun word => String.ofList (source word)) ∧
      split (String.ofList (fill n pieces)) =
        .ok (words.map fun word => String.ofList (fill n word)) := by
  obtain ⟨token, words, hrun, -⟩ := (lockstep_initial Piece.source (Piece.fill n)).run
    spelling_source (spelling_fill hne) pieces sound_initial
    (fun before after heq => ⟨inert_source_name _, hinert before after heq⟩)
  unfold split at hsplit ⊢
  rw [String.toList_ofList] at hsplit ⊢
  obtain ⟨words', htexts, hfinish, -⟩ := hrun.finish spelling_source (spelling_fill hne) hsplit
  exact ⟨words', htexts, hfinish⟩

theorem inert_of_isNameChar {c : Char} (h : isNameChar c = true) (quoting : Bool) :
    inert quoting c = true := by
  have hspecial : ∀ d ∈ [' ', '\t', '\r', '\n', '"', '\'', '\\'], c ≠ d := by
    rintro d hd rfl
    have hnone : [' ', '\t', '\r', '\n', '"', '\'', '\\'].all (!isNameChar ·) = true := rfl
    have hspecial := List.all_eq_true.mp hnone c hd
    rw [h] at hspecial
    cases hspecial
  simp only [List.forall_mem_cons, List.not_mem_nil, false_implies, implies_true, and_true]
    at hspecial
  simp [inert, isQuote, isEscape, isWhitespace, hspecial]

/-- A valid name is read as it is, up to the newline that may end it. -/
theorem validName_cases {n : String} (h : validateVmName n = true) :
    ∃ body, body ≠ [] ∧ (∀ c ∈ body, isNameChar c = true) ∧
      (n.toList = body ∨ n.toList = body ++ ['\n']) := by
  unfold validateVmName at h
  split at h
  · cases h
  · rename_i c rest heq
    simp only [Bool.and_eq_true, List.all_eq_true] at h
    obtain ⟨⟨hstart, hbody⟩, -⟩ := h
    have hc : isNameChar c = true := by
      unfold isNameStart at hstart
      simp [isNameChar, hstart]
    refine ⟨c :: dropFinalNewline rest, List.cons_ne_nil _ _, ?_, ?_⟩
    · exact List.forall_mem_cons.mpr ⟨hc, hbody⟩
    · rw [heq]
      unfold dropFinalNewline
      split
      · rename_i hlast
        right
        rw [List.cons_append, List.dropLast_append_getLast? _ (Option.mem_def.mpr hlast)]
      · exact .inl rfl

/-- The newlines that have gone into words. -/
def newlines (lexer : Lexer) : Nat :=
  lexer.token.count '\n' + (lexer.words.map fun word => word.toList.count '\n').sum

/-- Between words and in a word a character does the same to the mode. -/
def outer : Mode → Mode
  | .blank => .word
  | mode => mode

theorem newlines_push (lexer : Lexer) (c : Char) (mode : Mode) :
    newlines (lexer.push c mode) = newlines lexer + if c = '\n' then 1 else 0 := by
  simp only [newlines, Lexer.push, List.count_cons, beq_iff_eq]
  omega

theorem newlines_emit (lexer : Lexer) :
    newlines lexer.emit = newlines lexer ∧ lexer.emit.token = [] ∧ lexer.emit.mode = .blank := by
  unfold Lexer.emit
  split
  · rename_i hempty
    exact ⟨rfl, List.isEmpty_iff.mp (Bool.and_eq_true_iff.mp hempty).1, rfl⟩
  · simp [newlines]

theorem newlines_absorb (lexer : Lexer) (s : List Char) :
    newlines (lexer.absorb s) = newlines lexer + s.count '\n' := by
  have hlead : lexer.mode.lead.count '\n' = 0 := by
    cases lexer.mode with
    | blank | word | quote => rfl
    | escape back => cases back <;> rfl
  simp only [newlines, Lexer.absorb, List.count_append, List.count_reverse, hlead]
  omega

/-- Outside quotes no newline goes into a word. -/
theorem readPlain_outer (lexer : Lexer) (c : Char) :
    outer (lexer.readPlain c).mode = (if isWhitespace c then .word else if isQuote c then .quote c
      else if isEscape c then .escape none else .word) ∧
    newlines (lexer.readPlain c) = newlines lexer := by
  unfold Lexer.readPlain
  split
  · rw [(newlines_emit lexer).2.2]
    exact ⟨rfl, (newlines_emit lexer).1⟩
  · rename_i hspace
    split
    · exact ⟨rfl, rfl⟩
    · split
      · exact ⟨rfl, rfl⟩
      · have hne : c ≠ '\n' := by
          rintro rfl
          exact hspace rfl
        rw [newlines_push, if_neg hne]
        exact ⟨rfl, rfl⟩

section

variable {left right : Lexer}

/-- Lexers in the same mode, up to `outer`, gain the same by a character. -/
theorem step_outer (h : outer left.mode = outer right.mode) (c : Char) :
    outer (left.step c).mode = outer (right.step c).mode ∧
      newlines (left.step c) + newlines right = newlines (right.step c) + newlines left := by
  have hplain : outer (left.readPlain c).mode = outer (right.readPlain c).mode ∧
      newlines (left.readPlain c) + newlines right =
        newlines (right.readPlain c) + newlines left := by
    obtain ⟨hleftMode, hleft⟩ := readPlain_outer left c
    obtain ⟨hrightMode, hright⟩ := readPlain_outer right c
    refine ⟨hleftMode.trans hrightMode.symm, ?_⟩
    rw [hleft, hright, Nat.add_comm]
  unfold Lexer.step
  cases hleft : left.mode with
  | blank | word =>
      cases hright : right.mode with
      | blank | word => exact hplain
      | quote | escape =>
          rw [hleft, hright] at h
          cases h
  | quote mark =>
      cases hright : right.mode with
      | quote other =>
          rw [hleft, hright] at h
          cases h
          simp only [Lexer.readQuoted]
          split
          · exact ⟨rfl, Nat.add_comm _ _⟩
          · split
            · exact ⟨rfl, Nat.add_comm _ _⟩
            · rw [newlines_push, newlines_push]
              refine ⟨rfl, ?_⟩
              simp only [newlines]
              omega
      | blank | word | escape =>
          rw [hleft, hright] at h
          cases h
  | escape back =>
      cases hright : right.mode with
      | escape other =>
          rw [hleft, hright] at h
          cases h
          cases back with
          | none =>
              simp only [Lexer.readEscaped, newlines_push]
              exact ⟨rfl, by omega⟩
          | some mark =>
              simp only [Lexer.readEscaped]
              split
              · simp only [newlines_push]
                exact ⟨rfl, by omega⟩
              · simp only [newlines_push]
                exact ⟨rfl, by omega⟩
      | blank | word | quote =>
          rw [hleft, hright] at h
          cases h

theorem outer_settle (h : outer left.mode = outer right.mode) :
    left.mode.settle = right.mode.settle ∧ left.mode.quoting = right.mode.quoting := by
  have hsettle (mode : Mode) : mode.settle = (outer mode).settle := by cases mode <;> rfl
  have hquoting (mode : Mode) : mode.quoting = (outer mode).quoting := by cases mode <;> rfl
  constructor
  · rw [hsettle left.mode, hsettle right.mode, h]
  · rw [hquoting left.mode, hquoting right.mode, h]

theorem settle_cases (mode : Mode) : (mode.settle = .word ∧ mode.quoting = false) ∨
    ∃ mark, mode.settle = .quote mark ∧ mode.quoting = true := by
  cases mode with
  | blank | word => exact .inl ⟨rfl, rfl⟩
  | quote mark => exact .inr ⟨mark, rfl, rfl⟩
  | escape back =>
      cases back with
      | none => exact .inl ⟨rfl, rfl⟩
      | some mark => exact .inr ⟨mark, rfl, rfl⟩

/-- A name that ends in a newline: the newline stays in the word inside quotes, and
ends it elsewhere. -/
theorem read_newline {lexer : Lexer} {body : List Char} (hsound : lexer.Sound) (hne : body ≠ [])
    (hbody : ∀ c ∈ body, isNameChar c = true) :
    outer (read lexer (body ++ ['\n'])).mode = outer lexer.mode.settle ∧
      newlines (read lexer (body ++ ['\n'])) =
        newlines lexer + body.count '\n' + if lexer.mode.quoting then 1 else 0 := by
  have habsorb : read lexer body = lexer.absorb body :=
    read_inert hsound hne fun c hmem => inert_of_isNameChar (hbody c hmem) _
  rw [read_append, habsorb]
  have hstep : read (lexer.absorb body) ['\n'] = (lexer.absorb body).step '\n' := rfl
  rw [hstep]
  have habsorbed : (lexer.absorb body).mode = lexer.mode.settle := rfl
  rcases settle_cases lexer.mode with ⟨hsettle, hquoting⟩ | ⟨mark, hsettle, hquoting⟩
  · have hplain : (lexer.absorb body).step '\n' = (lexer.absorb body).readPlain '\n' := by
      unfold Lexer.step
      rw [habsorbed, hsettle]
    rw [hplain, (readPlain_outer _ _).2, (readPlain_outer _ _).1, newlines_absorb, hsettle,
      hquoting]
    exact ⟨rfl, rfl⟩
  · have hinert : inert (lexer.absorb body).mode.quoting '\n' = true := by
      rw [habsorbed, hsettle]
      rfl
    rw [step_inert (sound_absorb hsound body) hinert, newlines_absorb, newlines_absorb, hquoting]
    have hsettled : lexer.mode.settle.settle = lexer.mode.settle := by
      rw [hsettle]
      rfl
    exact ⟨congrArg outer hsettled, rfl⟩

/-- The placeholders that stand inside quotes. -/
def quotedNames (lexer : Lexer) : List Piece → Nat
  | [] => 0
  | piece :: rest =>
      (if piece = .name ∧ lexer.mode.quoting = true then 1 else 0) +
        quotedNames (read lexer piece.source) rest

/-- Two inert texts without a newline are read alike on both sides. -/
theorem newlines_inert (hleft : left.Sound) (hright : right.Sound)
    (h : outer left.mode = outer right.mode) {s s' : List Char} (hs : s ≠ []) (hs' : s' ≠ [])
    (hinert : ∀ c ∈ s, inert left.mode.quoting c = true)
    (hinert' : ∀ c ∈ s', inert right.mode.quoting c = true)
    (hcount : s.count '\n' = 0) (hcount' : s'.count '\n' = 0) :
    outer (read left s).mode = outer (read right s').mode ∧
      newlines (read right s') + newlines left = newlines (read left s) + newlines right := by
  obtain ⟨hsettle, -⟩ := outer_settle h
  rw [read_inert hleft hs hinert, read_inert hright hs' hinert', newlines_absorb, newlines_absorb,
    hcount, hcount']
  exact ⟨congrArg outer hsettle, by omega⟩

theorem newlines_source_piece (hleft : left.Sound) (hright : right.Sound)
    (h : outer left.mode = outer right.mode) {body : List Char} (hne : body ≠ [])
    (hbody : ∀ c ∈ body, isNameChar c = true) (hnone : body.count '\n' = 0) (piece : Piece) :
    outer (read left piece.source).mode =
        outer (read right (piece.fill (body ++ ['\n']))).mode ∧
      newlines (read right (piece.fill (body ++ ['\n']))) + newlines left =
        newlines (read left piece.source) + newlines right +
          if piece = .name ∧ left.mode.quoting = true then 1 else 0 := by
  obtain ⟨hsettle, hquoting⟩ := outer_settle h
  cases piece with
  | char c plain =>
      obtain ⟨hmode, hgain⟩ := step_outer h c
      refine ⟨hmode, ?_⟩
      rw [if_neg (by simp)]
      exact hgain.symm
  | openBrace =>
      have hfill := spelling_fill (List.append_ne_nil_of_left_ne_nil hne ['\n'])
      rw [if_neg (by simp)]
      exact newlines_inert hleft hright h (spelling_source.nonempty .openBrace)
        (hfill.nonempty .openBrace) (spelling_source.openBrace _) (hfill.openBrace _) rfl rfl
  | closeBrace =>
      have hfill := spelling_fill (List.append_ne_nil_of_left_ne_nil hne ['\n'])
      rw [if_neg (by simp)]
      exact newlines_inert hleft hright h (spelling_source.nonempty .closeBrace)
        (hfill.nonempty .closeBrace) (spelling_source.closeBrace _) (hfill.closeBrace _) rfl rfl
  | name =>
      have hl := read_inert hleft (spelling_source.nonempty .name) (inert_source_name _)
      obtain ⟨hmode, hgain⟩ := read_newline hright hne hbody
      have hcount : (Piece.source .name).count '\n' = 0 := by decide
      have hfill : Piece.fill (body ++ ['\n']) .name = body ++ ['\n'] := rfl
      rw [hl, hfill, newlines_absorb, hmode, hgain, hnone, hcount, hquoting]
      refine ⟨congrArg outer hsettle, ?_⟩
      simp only [true_and]
      omega

theorem newlines_source (pieces : List Piece) (hleft : left.Sound) (hright : right.Sound)
    (h : outer left.mode = outer right.mode) {body : List Char} (hne : body ≠ [])
    (hbody : ∀ c ∈ body, isNameChar c = true) (hnone : body.count '\n' = 0) :
    newlines (read right (fill (body ++ ['\n']) pieces)) + newlines left =
      newlines (read left (source pieces)) + newlines right + quotedNames left pieces := by
  induction pieces generalizing left right with
  | nil =>
      simp only [fill, source, List.flatMap_nil, quotedNames]
      exact Nat.add_comm _ _
  | cons piece rest ih =>
      obtain ⟨hmode, hgain⟩ := newlines_source_piece hleft hright h hne hbody hnone piece
      have hrest := ih (sound_read hleft piece.source) (sound_read hright _) hmode
      have hsource : source (piece :: rest) = piece.source ++ source rest := rfl
      have hfill : fill (body ++ ['\n']) (piece :: rest) =
          piece.fill (body ++ ['\n']) ++ fill (body ++ ['\n']) rest := rfl
      rw [hsource, hfill, read_append, read_append, quotedNames]
      omega

theorem quotedHere_le (lexer : Lexer) (piece : Piece) :
    (if piece = .name ∧ lexer.mode.quoting = true then 1 else 0) ≤
      if piece = .name then 1 else 0 := by
  split
  · rename_i hquoted
    rw [if_pos hquoted.1]
  · exact Nat.zero_le _

theorem quotedNames_le (lexer : Lexer) (pieces : List Piece) :
    quotedNames lexer pieces ≤ pieces.count .name := by
  induction pieces generalizing lexer with
  | nil => exact Nat.le_refl _
  | cons piece rest ih =>
      have hrest := ih (read lexer piece.source)
      have hhere := quotedHere_le lexer piece
      simp only [quotedNames, List.count_cons, beq_iff_eq]
      omega

/-- If every placeholder counts, each of them is inside quotes. -/
theorem quoting_of_quotedNames {lexer : Lexer} {pieces : List Piece}
    (h : pieces.count .name ≤ quotedNames lexer pieces) :
    ∀ before after, pieces = before ++ .name :: after →
      (read lexer (source before)).mode.quoting = true := by
  induction pieces generalizing lexer with
  | nil =>
      intro before after heq
      cases before <;> cases heq
  | cons piece rest ih =>
      have hle := quotedNames_le (read lexer piece.source) rest
      simp only [quotedNames, List.count_cons, beq_iff_eq] at h
      intro before after heq
      cases before with
      | nil =>
          obtain ⟨rfl, rfl⟩ := List.cons.inj heq
          by_contra hplain
          have hhere : ¬ (Piece.name = .name ∧ lexer.mode.quoting = true) :=
            fun hquoted => hplain hquoted.2
          rw [if_pos rfl, if_neg hhere] at h
          omega
      | cons first before =>
          obtain ⟨rfl, hrest⟩ := List.cons.inj heq
          have hcount : rest.count .name ≤ quotedNames (read lexer piece.source) rest := by
            have hhere := quotedHere_le lexer piece
            omega
          have hthere := ih hcount before after hrest
          rwa [← read_append] at hthere

theorem newlines_finish {lexer : Lexer} {texts : List String} (h : lexer.finish = .ok texts) :
    (texts.map fun text => text.toList.count '\n').sum = newlines lexer := by
  have hemit : lexer.finish = .ok lexer.emit.words.reverse := by
    unfold Lexer.finish at h ⊢
    cases hmode : lexer.mode with
    | blank | word => rfl
    | quote mark | escape back =>
        rw [hmode] at h
        cases h
  obtain ⟨hnewlines, htoken, -⟩ := newlines_emit lexer
  rw [hemit] at h
  obtain rfl := Except.ok.inj h
  rw [← hnewlines, newlines, htoken, List.map_reverse, List.sum_reverse, List.count_nil,
    Nat.zero_add]

end

theorem count_fill {body : List Char} (hnone : body.count '\n' = 0) (pieces : List Piece) :
    (fill (body ++ ['\n']) pieces).count '\n' =
      (source pieces).count '\n' + pieces.count .name := by
  induction pieces with
  | nil => rfl
  | cons piece rest ih =>
      have hsource : source (piece :: rest) = piece.source ++ source rest := rfl
      have hfill : fill (body ++ ['\n']) (piece :: rest) =
          piece.fill (body ++ ['\n']) ++ fill (body ++ ['\n']) rest := rfl
      have hpiece : (piece.fill (body ++ ['\n'])).count '\n' =
          piece.source.count '\n' + if piece = .name then 1 else 0 := by
        cases piece with
        | name =>
            have hname : Piece.fill (body ++ ['\n']) .name = body ++ ['\n'] := rfl
            rw [hname, List.count_append, hnone]
            decide
        | char | openBrace | closeBrace => simp [Piece.fill, Piece.source]
      rw [hsource, hfill, List.count_append, List.count_append, ih, hpiece, List.count_cons]
      simp only [beq_iff_eq]
      omega

theorem sum_count_fill {body : List Char} (hnone : body.count '\n' = 0)
    (words : List (List Piece)) :
    ((words.map fun word => String.ofList (fill (body ++ ['\n']) word)).map
        fun text => text.toList.count '\n').sum =
      ((words.map fun word => String.ofList (source word)).map
        fun text => text.toList.count '\n').sum + names [] words := by
  induction words with
  | nil => rfl
  | cons word rest ih =>
      simp only [List.map_cons, List.sum_cons, String.toList_ofList, names, List.count_nil,
        Nat.zero_add, count_fill hnone] at ih ⊢
      omega

/-- The command that runs for `n`: it has the words of the template, each with the
name filled in. -/
def CommandFor (rt : Runtime) (template n : String) (others : List (String × PyVal))
    (words : List String) : Prop :=
  ∃ text args, Format.format rt (.str template) (("name", .str n) :: others) = .ok text ∧
    split text = .ok args ∧
    List.Forall₂ (fun word arg =>
      Format.format rt (.str word) (("name", .str n) :: others) = .ok arg) words args

theorem forall₂_format_iff (rt : Runtime) (n : String) (others : List (String × PyVal))
    (words : List (List Piece)) (args : List String) :
    List.Forall₂ (fun word arg =>
        Format.format rt (.str word) (("name", .str n) :: others) = .ok arg)
        (words.map fun word => String.ofList (source word)) args ↔
      args = words.map fun word => String.ofList (fill n.toList word) := by
  induction words generalizing args with
  | nil => exact List.forall₂_nil_left_iff
  | cons word rest ih =>
      rw [List.map_cons, List.forall₂_cons_left_iff, List.map_cons]
      simp only [format_source, Except.ok.injEq, ih]
      constructor
      · rintro ⟨arg, others, rfl, rfl, rfl⟩
        rfl
      · rintro rfl
        exact ⟨_, _, rfl, rfl, rfl⟩

/-- A valid name is inert wherever it stands, and the newline that may end it is
inert inside quotes. -/
theorem inertWhereNamed_of_body {n body : List Char} {pieces : List Piece}
    (hbody : ∀ c ∈ body, isNameChar c = true) (hcases : n = body ∨ n = body ++ ['\n'])
    (h : n.getLast? ≠ some '\n' ∨ ∀ before after, pieces = before ++ .name :: after →
      (read initial (source before)).mode.quoting = true) : InertWhereNamed n pieces := by
  intro before after hpieces c hmem
  rcases hcases with rfl | rfl
  · exact inert_of_isNameChar (hbody c hmem) _
  · rcases List.mem_append.mp hmem with hmem | hmem
    · exact inert_of_isNameChar (hbody c hmem) _
    · rcases h with hlast | hquoted
      · exact absurd List.getLast?_concat hlast
      · rw [hquoted before after hpieces, List.mem_singleton.mp hmem]
        rfl

/-- Filling in a valid name before splitting gives the words of the template
exactly when the name does not end in a newline, or every placeholder stands
inside quotes. -/
theorem commandFor_iff (rt : Runtime) {pieces : List Piece} {n : String}
    (others : List (String × PyVal)) {words : List String}
    (hsplit : split (String.ofList (source pieces)) = .ok words)
    (hvalid : validateVmName n = true) :
    CommandFor rt (String.ofList (source pieces)) n others words ↔
      n.toList.getLast? ≠ some '\n' ∨ ∀ before after, pieces = before ++ .name :: after →
        (read initial (source before)).mode.quoting = true := by
  obtain ⟨body, hne, hbody, hcases⟩ := validName_cases hvalid
  have hneName : n.toList ≠ [] := by
    rcases hcases with heq | heq <;> rw [heq] <;> simp [hne]
  constructor
  · rintro ⟨text, args, htext, hargs, hforall⟩
    rw [format_source] at htext
    obtain rfl := Except.ok.inj htext
    rw [or_iff_not_imp_left, not_not]
    intro hlast
    have heq : n.toList = body ++ ['\n'] := by
      rcases hcases with heq | heq
      · rw [heq] at hlast
        have hmem := hbody _ (List.mem_of_getLast? hlast)
        exact absurd hmem (by decide)
      · exact heq
    have hnone : body.count '\n' = 0 := by
      apply List.count_eq_zero.mpr
      intro hmem
      exact absurd (hbody _ hmem) (by decide)
    -- the template's own words, with the placeholders counted
    obtain ⟨token, tokens, hrun, hnames⟩ := (lockstep_initial Piece.source Piece.source).run
      spelling_source spelling_source pieces sound_initial
      (fun _ _ _ => ⟨inert_source_name _, inert_source_name _⟩)
    unfold split at hsplit hargs
    rw [String.toList_ofList] at hsplit hargs
    obtain ⟨spelled, rfl, -, hspelled⟩ := hrun.finish spelling_source spelling_source hsplit
    obtain rfl := (forall₂_format_iff rt n others spelled args).mp hforall
    have hfinal := newlines_finish hargs
    have htemplate := newlines_finish hsplit
    have hgain := newlines_source pieces sound_initial sound_initial rfl hne hbody hnone
    rw [heq] at hfinal
    rw [sum_count_fill hnone] at hfinal
    have hcount : pieces.count .name ≤ quotedNames initial pieces := by
      have hzero : names [] [] = 0 := rfl
      have hsource : (fun word : List Piece => String.ofList (word.flatMap Piece.source)) =
          fun word => String.ofList (source word) := rfl
      rw [hsource] at htemplate
      omega
    exact quoting_of_quotedNames hcount
  · intro h
    obtain ⟨spelled, rfl, hfilled⟩ :=
      split_fill hneName (inertWhereNamed_of_body hbody hcases h) hsplit
    exact ⟨_, _, format_source rt n others pieces, hfilled,
      (forall₂_format_iff rt n others spelled _).mpr rfl⟩

def plainPieces (s : String) : List Piece :=
  s.toList.filterMap fun c =>
    if plain : Format.isBrace c = false then some (.char c plain) else none

/-- `virsh console {name}.lab` -/
def labCommand : List Piece := plainPieces "virsh console " ++ [.name] ++ plainPieces ".lab"

theorem commandFor_iff_lab :
    CommandFor .plain (String.ofList (source labCommand)) "vm1" []
      ["virsh", "console", "{name}.lab"] :=
  (commandFor_iff .plain [] (by decide) (by decide)).mpr (.inl (by decide))

/-- With a newline behind it the name is cut off, and the rest of its word is an
argument of its own. -/
theorem labCommand_newline :
    validateVmName "vm1\n" = true ∧
      split (String.ofList (source labCommand)) = .ok ["virsh", "console", "{name}.lab"] ∧
      split (String.ofList (fill "vm1\n".toList labCommand)) =
        .ok ["virsh", "console", "vm1", ".lab"] ∧
      ¬ CommandFor .plain (String.ofList (source labCommand)) "vm1\n" []
        ["virsh", "console", "{name}.lab"] := by
  have hargs : split (String.ofList (fill "vm1\n".toList labCommand)) =
      .ok ["virsh", "console", "vm1", ".lab"] := by decide
  refine ⟨by decide, by decide, hargs, ?_⟩
  rintro ⟨text, args, htext, hsplit, hforall⟩
  rw [format_source] at htext
  obtain rfl := Except.ok.inj htext
  rw [hargs] at hsplit
  obtain rfl := Except.ok.inj hsplit
  exact absurd hforall.length_eq (by decide)

end Vnctlsd.Monitor.CommandTemplate
