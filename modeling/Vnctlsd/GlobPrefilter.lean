import Vnctlsd.ConsoleNames
import Vnctlsd.Library.Wildcard

/-! The shell pattern of a glob template against its regular expression: the one leaves
the shell's own wildcards in force, the other escapes them and ends with `$`. -/
namespace Vnctlsd.GlobPrefilter
open Vnctlsd.Library.Template Vnctlsd.Library.Wildcard Vnctlsd.Python Fnmatch GlobPatterns
open ConsoleNames

def wildcard : Token → Slot Char
  | .star => .many
  | token => .one token.accepts

/-- The path is cut into a text for every token: any text for `*`, one character of the
set for a bracket expression. -/
def ShellCovers (tokens : List Token) (path : List Char) : Prop :=
  Covers (tokens.map wildcard) path

theorem matchTokens_iff {tokens : List Token} {path : List Char} :
    matchTokens tokens path = true ↔ ShellCovers tokens path := by
  unfold ShellCovers
  induction tokens generalizing path with
  | nil =>
      cases path with
      | nil => exact iff_of_true rfl .nil
      | cons c path => exact iff_of_false (by simp [matchTokens]) fun h => by cases h
  | cons token rest ih =>
      have hone : ∀ accepts : Char → Bool, wildcard token = .one accepts →
          (∀ c path, matchTokens (token :: rest) (c :: path) =
            (accepts c && matchTokens rest path)) → matchTokens (token :: rest) [] = false →
          (matchTokens (token :: rest) path = true ↔
            Covers (wildcard token :: rest.map wildcard) path) := by
        intro accepts hwildcard hcons hnil
        rw [hwildcard]
        cases path with
        | nil => exact iff_of_false (by simp [hnil]) fun h => by cases h
        | cons c path =>
            rw [hcons, Bool.and_eq_true, ih]
            constructor
            · rintro ⟨haccepts, h⟩
              exact .one haccepts h
            · rintro (_ | _ | ⟨haccepts, h⟩)
              exact ⟨haccepts, h⟩
      cases token with
      | star =>
          rw [matchTokens, List.any_eq_true, List.map_cons, wildcard, covers_many_iff]
          simp only [ih]
      | any => exact hone _ rfl (fun _ _ => rfl) rfl
      | lit c => exact hone _ rfl (fun _ _ => rfl) rfl
      | set negated ranges => exact hone _ rfl (fun _ _ => rfl) rfl

/-- What stands in the shell pattern for a position of the template. -/
def shellChar : Atom → Char
  | .lit c => c
  | .group _ => '*'

theorem fnmatchFrom_eq (fuel : Nat) (s : List Char) :
    fnmatchFrom fuel s = (atomsFrom fuel s).map shellChar := by
  induction fuel generalizing s with
  | zero => cases s <;> rfl
  | succ fuel ih =>
      cases s with
      | nil => rfl
      | cons c rest =>
          rw [fnmatchFrom, atomsFrom]
          split
          · split
            · rw [ih, List.map_cons, shellChar]
            · rw [ih, List.map_cons, shellChar]
          · rw [ih, List.map_cons, shellChar]

/-- No bracket of the shell pattern opens a bracket expression. -/
def Unbracketed (shell : List Char) : Prop :=
  ∀ front rest, shell = front ++ '[' :: rest → closeBracket rest = none

theorem unbracketed_of_not_mem {shell : List Char} (h : '[' ∉ shell) : Unbracketed shell := by
  rintro front rest rfl
  exact absurd (List.mem_append_right front (List.mem_cons_self ..)) h

def plainToken (c : Char) : Token :=
  if c = '*' then .star else if c = '?' then .any else .lit c

theorem tokensFrom_unbracketed {fuel : Nat} {shell : List Char} (hfuel : shell.length ≤ fuel)
    (h : Unbracketed shell) : tokensFrom fuel shell = shell.map plainToken := by
  induction fuel generalizing shell with
  | zero =>
      obtain rfl := List.length_eq_zero_iff.mp (Nat.le_zero.mp hfuel)
      rfl
  | succ fuel ih =>
      cases shell with
      | nil => rfl
      | cons c rest =>
          have hrest : Unbracketed rest := fun front tail heq =>
            h (c :: front) tail (by rw [heq, List.cons_append])
          rw [List.length_cons] at hfuel
          rw [tokensFrom, ih (by omega) hrest, List.map_cons, plainToken]
          split
          · rfl
          · split
            · rfl
            · split
              · rename_i hbracket
                subst hbracket
                rw [h [] rest rfl]
              · rfl

/-- The values turn the template into the path: each is a non-empty text without `/`. -/
def Makes (atoms : List Atom) (value : String → List Char) (path : List Char) : Prop :=
  (∀ name ∈ groupNames atoms, value name ≠ [] ∧ '/' ∉ value name) ∧
    fill value (atoms.map piece) = path

def IsInstance (atoms : List Atom) (path : List Char) : Prop :=
  ∃ value : String → List Char, Makes atoms value path

theorem forall_inValue_iff {text : List Char} :
    (∀ c ∈ text, inValue c = true) ↔ '/' ∉ text := by
  simp only [inValue, bne_iff_ne]
  exact ⟨fun h hmem => h _ hmem rfl, fun h c hc heq => h (heq ▸ hc)⟩

theorem isInstance_iff_reads {atoms : List Atom} (hnodup : (groupNames atoms).Nodup)
    {path : List Char} :
    IsInstance atoms path ↔ ∃ values, Reads inValue List.isEmpty (atoms.map piece) path values := by
  rw [← names_map_piece] at hnodup
  unfold IsInstance Makes
  rw [← names_map_piece]
  simp only [← forall_inValue_iff]
  constructor
  · rintro ⟨value, hvalue, rfl⟩
    exact ⟨_, reads_fill rfl hvalue⟩
  · rintro ⟨values, hreads⟩
    obtain ⟨value, rfl, hvalue⟩ := exists_assign_of_reads hnodup hreads
    obtain ⟨tail, htail, rfl⟩ := eq_fill_of_reads hreads
    obtain rfl := List.isEmpty_iff.mp htail
    exact ⟨value, hvalue, (List.append_nil _).symm⟩

theorem lineEnd_iff {tail : List Char} : lineEnd tail = true ↔ tail = [] ∨ tail = ['\n'] := by
  simp [lineEnd]

/-- The regular expression matches the instances, also with a line feed behind them. -/
theorem matchAtoms_iff {atoms : List Atom} (hnodup : (groupNames atoms).Nodup)
    {path : List Char} :
    (∃ values, matchAtoms atoms path = some values) ↔
      IsInstance atoms path ∨ ∃ body, path = body ++ ['\n'] ∧ IsInstance atoms body := by
  simp only [matchAtoms_eq_readBack, isInstance_iff_reads hnodup]
  constructor
  · rintro ⟨values, hvalues⟩
    obtain ⟨body, tail, rfl, htail, hreads⟩ := reads_iff_whole.mp (reads_of_readBack hvalues)
    rcases lineEnd_iff.mp htail with rfl | rfl
    · rw [List.append_nil]
      exact .inl ⟨values, hreads⟩
    · exact .inr ⟨body, rfl, values, hreads⟩
  · rintro (⟨values, hreads⟩ | ⟨body, rfl, values, hreads⟩)
    · exact exists_readBack (reads_iff_whole.mpr
        ⟨path, [], (List.append_nil _).symm, rfl, hreads⟩)
    · exact exists_readBack (reads_iff_whole.mpr ⟨body, ['\n'], rfl, rfl, hreads⟩)

/-- The template's own wildcards, of a shell pattern without bracket expressions. -/
def plainWildcards (shell : List Char) : List (Slot Char) :=
  shell.map fun c => wildcard (plainToken c)

theorem plainWildcards_star : wildcard (plainToken '*') = .many := rfl

def accepts (c d : Char) : Bool := c == '?' || c == d

theorem wildcard_plainToken {c : Char} (h : c ≠ '*') :
    wildcard (plainToken c) = .one (accepts c) := by
  unfold plainToken
  rw [if_neg h]
  split
  · rename_i hany
    subst hany
    rfl
  · rename_i hany
    have hliteral : accepts c = fun d => c == d := by
      funext d
      rw [accepts, beq_false_of_ne hany, Bool.false_or]
    rw [hliteral]
    rfl

theorem shellCovers_iff {shell : String} (h : Unbracketed shell.toList) (path : List Char) :
    ShellCovers (tokens shell) path ↔ Covers (plainWildcards shell.toList) path := by
  rw [ShellCovers, tokens, tokensFrom_unbracketed (Nat.le_refl _) h, List.map_map]
  rfl

/-- Where there are no bracket expressions the shell pattern covers every instance. -/
theorem covers_of_reads {atoms : List Atom} {path : List Char}
    {values : List (String × List Char)}
    (h : Reads inValue List.isEmpty (atoms.map piece) path values) :
    Covers (plainWildcards (atoms.map shellChar)) path := by
  induction atoms generalizing path values with
  | nil =>
      cases h with
      | nil hends =>
          obtain rfl := List.isEmpty_iff.mp hends
          exact .nil
  | cons atom rest ih =>
      cases atom with
      | lit c =>
          cases h with
          | lit h =>
              by_cases hstar : c = '*'
              · subst hstar
                exact .many ['*'] (ih h)
              · unfold plainWildcards
                rw [List.map_cons, List.map_cons, shellChar, wildcard_plainToken hstar]
                exact .one (by simp [accepts]) (ih h)
      | group name =>
          cases h with
          | hole _ _ h => exact .many _ (ih h)

/-- Behind the last `*` each character stands for itself or, as `?`, for any other. -/
theorem covers_tail_iff {tail text : List Char} (h : '*' ∉ tail) :
    Covers (plainWildcards tail) text ↔ List.Forall₂ (fun c d => accepts c d = true) tail text := by
  have hones : plainWildcards tail = (tail.map accepts).map .one := by
    unfold plainWildcards
    rw [List.map_map]
    refine List.map_congr_left fun c hc => wildcard_plainToken ?_
    exact ne_of_mem_of_not_mem hc h
  rw [hones, covers_ones_iff, List.forall₂_map_left_iff]

theorem reads_tail {atoms : List Atom} (h : '*' ∉ atoms.map shellChar) {text : List Char}
    {values : List (String × List Char)}
    (hreads : Reads inValue List.isEmpty (atoms.map piece) text values) :
    text = atoms.map shellChar ∧ values = [] := by
  induction atoms generalizing text values with
  | nil =>
      cases hreads with
      | nil hends => exact ⟨List.isEmpty_iff.mp hends, rfl⟩
  | cons atom rest ih =>
      rw [List.map_cons, List.mem_cons, not_or] at h
      cases atom with
      | lit c =>
          cases hreads with
          | lit hreads =>
              obtain ⟨rfl, rfl⟩ := ih h.2 hreads
              exact ⟨rfl, rfl⟩
      | group name => exact absurd rfl h.1

/-- Question marks, and line feeds behind them. -/
def questionsThenFeeds : List Char → Bool
  | [] => true
  | c :: rest => if c = '?' then questionsThenFeeds rest else (c :: rest).all (· == '\n')

/-- A tail that is pushed on by a line feed. -/
theorem pushed_tail_iff (tail : List Char) :
    List.Forall₂ (fun c d => accepts c d = true) tail ((tail ++ ['\n']).drop 1) ↔
      questionsThenFeeds tail = true := by
  induction tail with
  | nil => simp [questionsThenFeeds]
  | cons c rest ih =>
      cases rest with
      | nil => by_cases hany : c = '?' <;> simp [questionsThenFeeds, accepts, hany]
      | cons d rest =>
          rw [List.cons_append, List.drop_succ_cons, List.drop_zero] at ih ⊢
          rw [List.cons_append, List.forall₂_cons, ih]
          by_cases hany : c = '?'
          · simp [questionsThenFeeds, accepts, hany]
          · by_cases hsame : c = d
            · subst hsame
              simp [questionsThenFeeds, accepts, hany]
            · simp only [accepts, hany, beq_false_of_ne hany, beq_false_of_ne hsame,
                Bool.or_self, Bool.false_eq_true, false_and, false_iff, questionsThenFeeds,
                if_false, List.all_cons, Bool.and_eq_true, beq_iff_eq, not_and]
              rintro rfl rfl
              exact absurd rfl hsame

/-- The pattern goes on behind its last `*` in a way that fits a further line feed. -/
def TakesLineFeed (shell : List Char) : Prop :=
  ∃ front tail, shell = front ++ '*' :: tail ∧ '*' ∉ tail ∧ questionsThenFeeds tail = true

theorem exists_last_star {shell : List Char} (h : '*' ∈ shell) :
    ∃ front tail, shell = front ++ '*' :: tail ∧ '*' ∉ tail := by
  obtain ⟨tail, front, heq, htail⟩ := List.eq_append_cons_of_mem (List.mem_reverse.mpr h)
  refine ⟨front.reverse, tail.reverse, ?_, by rwa [List.mem_reverse]⟩
  rw [← List.reverse_reverse shell, heq]
  simp

theorem covers_fed_split {before after : List Atom} {last : Atom} (hlast : shellChar last = '*')
    (hafter : '*' ∉ after.map shellChar) {body : List Char} {values : List (String × List Char)}
    (h : Reads inValue List.isEmpty ((before ++ last :: after).map piece) body values) :
    Covers (plainWildcards ((before ++ last :: after).map shellChar)) (body ++ ['\n']) ↔
      questionsThenFeeds (after.map shellChar) = true := by
  rw [List.map_append, List.map_cons, ← List.singleton_append] at h
  obtain ⟨front, others, first, second, rfl, -, hfront, hothers⟩ := reads_append_iff.mp h
  obtain ⟨middle, tail, _, _, rfl, -, -, htail⟩ := reads_append_iff.mp hothers
  obtain ⟨rfl, -⟩ := reads_tail hafter htail
  have hpattern : plainWildcards ((before ++ last :: after).map shellChar) =
      (plainWildcards (before.map shellChar) ++ [.many]) ++
        plainWildcards (after.map shellChar) := by
    simp [plainWildcards, hlast, plainWildcards_star]
  have hpushed : front ++ (middle ++ after.map shellChar) ++ ['\n'] =
      (front ++ middle ++ (after.map shellChar ++ ['\n']).take 1) ++
        (after.map shellChar ++ ['\n']).drop 1 := by
    rw [List.append_assoc _ (List.take _ _), List.take_append_drop]
    simp only [List.append_assoc]
  rw [hpattern, hpushed, ← pushed_tail_iff]
  constructor
  · intro hcovers
    obtain ⟨early, late, heq, -, hlate⟩ := covers_append_iff.mp hcovers
    have hpaired := (covers_tail_iff hafter).mp hlate
    have hlength : ((after.map shellChar ++ ['\n']).drop 1).length = late.length := by
      rw [← hpaired.length_eq, List.length_drop, List.length_append, List.length_singleton,
        Nat.add_sub_cancel]
    rwa [List.append_inj_right' heq hlength]
  · intro hpaired
    have hmany : Covers [.many] (middle ++ (after.map shellChar ++ ['\n']).take 1) := by
      simpa using Covers.many (middle ++ (after.map shellChar ++ ['\n']).take 1) Covers.nil
    refine covers_append_iff.mpr ⟨_, _, rfl, ?_, (covers_tail_iff hafter).mpr hpaired⟩
    exact covers_append_iff.mpr
      ⟨front, _, List.append_assoc .., covers_of_reads hfront, hmany⟩

/-- A line feed behind an instance is covered by the last `*`, with everything after it
one place further on. -/
theorem covers_fed_iff {atoms : List Atom} {body : List Char}
    {values : List (String × List Char)}
    (h : Reads inValue List.isEmpty (atoms.map piece) body values) :
    Covers (plainWildcards (atoms.map shellChar)) (body ++ ['\n']) ↔
      TakesLineFeed (atoms.map shellChar) := by
  have hsplit : ∀ front tail, atoms.map shellChar = front ++ '*' :: tail → '*' ∉ tail →
      (Covers (plainWildcards (atoms.map shellChar)) (body ++ ['\n']) ↔
        questionsThenFeeds tail = true) := by
    intro front tail heq htail
    obtain ⟨before, others, rfl, hfront, hothers⟩ := List.map_eq_append_iff.mp heq
    obtain ⟨last, after, rfl, hlast, rfl⟩ := List.map_eq_cons_iff.mp hothers
    exact covers_fed_split hlast htail h
  constructor
  · intro hcovers
    by_cases hstar : '*' ∈ atoms.map shellChar
    · obtain ⟨front, tail, heq, htail⟩ := exists_last_star hstar
      exact ⟨front, tail, heq, htail, (hsplit front tail heq htail).mp hcovers⟩
    · have hpaired := ((covers_tail_iff hstar).mp hcovers).length_eq
      rw [(reads_tail hstar h).1, List.length_append, List.length_singleton] at hpaired
      omega
  · rintro ⟨front, tail, heq, htail, hfeeds⟩
    exact (hsplit front tail heq htail).mpr hfeeds

/-- Whenever the regular expression matches, its captures are the answer. -/
def PrefilterPasses (shell : String) (regex : List Atom) (path : String) : Prop :=
  ∀ vars, regexMatch (.pattern regex) path = .ok (some vars) →
    matchGlobPattern (.str path) (.str shell) (.pattern regex) = .ok (some vars)

theorem prefilterPasses_iff {shell : String} {regex : List Atom} {path : String} :
    PrefilterPasses shell regex path ↔
      ((∃ values, matchAtoms regex path.toList = some values) →
        ShellCovers (tokens shell) path.toList) := by
  unfold PrefilterPasses
  rw [← matchTokens_iff]
  simp only [matchGlobPattern, regexMatch, fnmatch]
  cases hmatch : matchAtoms regex path.toList with
  | none => simp
  | some values =>
      by_cases hcovers : matchTokens (tokens shell) path.toList = true <;> simp [hcovers]

/-- Without bracket expressions only a line feed behind an instance can be in the way,
and only where the pattern does not go on so as to take it.  With one, a path that the
expression matches must fit the sets. -/
def Harmless (shell : List Char) (tokens : List Token) (atoms : List Atom)
    (path : List Char) : Prop :=
  (Unbracketed shell ∧
    ((∀ body, path = body ++ ['\n'] → ¬ IsInstance atoms body) ∨ TakesLineFeed shell)) ∨
  (¬ Unbracketed shell ∧
    ((¬ IsInstance atoms path ∧ ∀ body, path = body ++ ['\n'] → ¬ IsInstance atoms body) ∨
      ShellCovers tokens path))

end Vnctlsd.GlobPrefilter
