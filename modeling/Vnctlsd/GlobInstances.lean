import Vnctlsd.GlobPrefilter

/-! Glob templates of plain text and placeholders.  Without wildcards and braces in the
text, the shell pattern and the regular expression together accept the instances of the
template and nothing else. -/
namespace Vnctlsd.GlobInstances
open Vnctlsd.Library.Template Vnctlsd.Library.Wildcard Vnctlsd.Python GlobPatterns
open ConsoleNames GlobPrefilter

/-- The template as it is written in the configuration. -/
def written : List Atom → List Char
  | [] => []
  | .lit c :: rest => c :: written rest
  | .group name :: rest => '{' :: name.toList ++ '}' :: written rest

def special : List Char := ['{', '}', '*', '?', '[']

def isPlain : Atom → Bool
  | .lit c => c ∉ special
  | .group _ => true

/-- Text without `{ } * ? [`, and placeholders with different identifiers for names. -/
structure PlainTemplate (rt : Runtime) (atoms : List Atom) : Prop where
  literals : ∀ atom ∈ atoms, isPlain atom = true
  identifiers : ∀ name ∈ groupNames atoms, rt.isIdentifier name = true
  distinct : (groupNames atoms).Nodup

theorem placeholder?_written {name : List Char} (hne : name ≠ []) (hname : '}' ∉ name)
    (rest : List Char) : placeholder? (name ++ '}' :: rest) = some (name, rest) := by
  have hinside : ∀ c ∈ name, (c != '}') = true := fun c hc => by
    simpa using ne_of_mem_of_not_mem hc hname
  have htake : (name ++ '}' :: rest).takeWhile (· != '}') = name := by
    rw [List.takeWhile_append_of_pos hinside, List.takeWhile_cons_of_neg (by decide),
      List.append_nil]
  have hdrop : (name ++ '}' :: rest).dropWhile (· != '}') = '}' :: rest := by
    rw [List.dropWhile_append_of_pos hinside, List.dropWhile_cons_of_neg (by decide)]
  unfold placeholder?
  rw [htake, hdrop]
  dsimp only
  rw [if_neg (by simpa using hne)]

/-- Compiling a template that is written out gives it back. -/
theorem atomsFrom_written {atoms : List Atom} (hlit : ∀ c, Atom.lit c ∈ atoms → c ≠ '{')
    (hname : ∀ name ∈ groupNames atoms, name.toList ≠ [] ∧ '}' ∉ name.toList) {fuel : Nat}
    (hfuel : (written atoms).length ≤ fuel) : atomsFrom fuel (written atoms) = atoms := by
  induction atoms generalizing fuel with
  | nil => cases fuel <;> rfl
  | cons atom rest ih =>
      have hrest : ∀ c, Atom.lit c ∈ rest → c ≠ '{' := fun c hc =>
        hlit c (List.mem_cons_of_mem _ hc)
      cases atom with
      | lit c =>
          rw [written, List.length_cons] at hfuel
          obtain ⟨fuel, rfl⟩ : ∃ n, fuel = n + 1 := ⟨fuel - 1, by omega⟩
          rw [written, atomsFrom, if_neg (hlit c (List.mem_cons_self ..)),
            ih hrest hname (by omega)]
      | group name =>
          obtain ⟨⟨hne, hbrace⟩, hnames⟩ := List.forall_mem_cons.mp hname
          rw [written, List.cons_append, List.length_cons, List.length_append,
            List.length_cons] at hfuel
          obtain ⟨fuel, rfl⟩ : ∃ n, fuel = n + 1 := ⟨fuel - 1, by omega⟩
          rw [written, List.cons_append, atomsFrom, if_pos rfl, placeholder?_written hne hbrace]
          dsimp only
          rw [String.ofList_toList, ih hrest hnames (by omega)]

section

variable {rt : Runtime} {atoms : List Atom}

theorem PlainTemplate.lit_ne (h : PlainTemplate rt atoms) {c d : Char}
    (hc : Atom.lit c ∈ atoms) (hd : d ∈ special) : c ≠ d :=
  fun heq => of_decide_eq_true (h.literals _ hc) (heq ▸ hd)

/-- A wildcard of the shell pattern stands for a placeholder. -/
theorem PlainTemplate.not_mem_shell (h : PlainTemplate rt atoms) {d : Char}
    (hd : d ∈ special) (hstar : d ≠ '*') : d ∉ atoms.map shellChar := by
  intro hmem
  obtain ⟨atom, hatom, heq⟩ := List.mem_map.mp hmem
  cases atom with
  | lit c => exact h.lit_ne hatom hd heq
  | group name => exact hstar heq.symm

theorem PlainTemplate.compile (hident : PlainIdentifiers rt) (h : PlainTemplate rt atoms) :
    compileGlobPattern rt (.str (String.ofList (written atoms))) =
      .ok (String.ofList (atoms.map shellChar), atoms) := by
  have hplain : ∀ name ∈ groupNames atoms, name.toList ≠ [] ∧ '}' ∉ name.toList := by
    intro name hname
    have hname := hident name (h.identifiers name hname)
    exact ⟨hname.nonempty, fun hbrace => absurd (hname.plain _ hbrace) (by decide)⟩
  have hatoms : atomsFrom (written atoms).length (written atoms) = atoms :=
    atomsFrom_written (fun c hc => h.lit_ne hc (by decide)) hplain (Nat.le_refl _)
  unfold compileGlobPattern
  dsimp only
  rw [String.toList_ofList, fnmatchFrom_eq, hatoms]
  have hregex : compileRegex rt atoms = .ok atoms := by
    unfold compileRegex
    rw [List.all_eq_true.mpr h.identifiers, Bool.not_true, if_neg Bool.false_ne_true,
      if_pos h.distinct]
  rw [hregex]
  rfl

theorem questionsThenFeeds_iff {tail : List Char} (h : '?' ∉ tail) :
    questionsThenFeeds tail = true ↔ tail = List.replicate tail.length '\n' := by
  cases tail with
  | nil => simp [questionsThenFeeds]
  | cons c rest =>
      have hc : c ≠ '?' := fun heq => h (heq ▸ List.mem_cons_self ..)
      rw [questionsThenFeeds, if_neg hc, List.all_eq_true, List.eq_replicate_iff]
      simp

/-- Where the line feed behind an instance passes the pre-filter, the last placeholder
takes one character more. -/
theorem PlainTemplate.exists_longer (h : PlainTemplate rt atoms)
    (hfeed : TakesLineFeed (atoms.map shellChar)) {body : List Char}
    {values : List (String × List Char)}
    (hreads : Reads inValue List.isEmpty (atoms.map piece) body values) :
    ∃ longer, Reads inValue List.isEmpty (atoms.map piece) (body ++ ['\n']) longer ∧
      Precedes longer values := by
  obtain ⟨front, tail, heq, hstar, hfeeds⟩ := hfeed
  obtain ⟨before, others, rfl, -, hothers⟩ := List.map_eq_append_iff.mp heq
  obtain ⟨last, after, rfl, hlast, rfl⟩ := List.map_eq_cons_iff.mp hothers
  have hany : '?' ∉ after.map shellChar := by
    have hshell := @PlainTemplate.not_mem_shell _ _ h '?' (by decide) (by decide)
    rw [heq, List.mem_append, List.mem_cons] at hshell
    exact fun hmem => hshell (.inr (.inr hmem))
  have htail := (questionsThenFeeds_iff hany).mp hfeeds
  cases last with
  | lit c =>
      have hc : Atom.lit c ∈ before ++ .lit c :: after :=
        List.mem_append_right before (List.mem_cons_self ..)
      exact absurd hlast (h.lit_ne hc (by decide))
  | group name =>
      rw [List.map_append, List.map_cons, piece] at hreads ⊢
      obtain ⟨early, late, first, second, rfl, rfl, hfirst, hsecond⟩ := reads_append_iff.mp hreads
      cases hsecond with
      | @hole _ _ value text others hne hinside hafter =>
          obtain ⟨rfl, rfl⟩ := reads_tail hstar hafter
          have hshift : after.map shellChar ++ ['\n'] = '\n' :: after.map shellChar := by
            rw [htail, ← List.replicate_succ', List.replicate_succ]
          refine ⟨first ++ [(name, value ++ ['\n'])], ?_, .append_left first (.here (by simp))⟩
          refine reads_append_iff.mpr ⟨early, value ++ ['\n'] ++ after.map shellChar, first, _,
            ?_, rfl, hfirst, .hole (by simp) ?_ hafter⟩
          · rw [List.append_assoc, List.append_assoc, hshift, List.append_assoc,
              List.singleton_append]
          · intro c hc
            rcases List.mem_append.mp hc with hc | hc
            · exact hinside c hc
            · rw [List.mem_singleton.mp hc]
              decide

/-- The path goes into the compiled template, and these variables come out. -/
def Captures (atoms : List Atom) (path : String) (vars : PyVal) : Prop :=
  matchGlobPattern (.str path) (.str (String.ofList (atoms.map shellChar))) (.pattern atoms) =
    .ok (some vars)

theorem PlainTemplate.captures_iff (h : PlainTemplate rt atoms) {path : String} {vars : PyVal} :
    Captures atoms path vars ↔ Covers (plainWildcards (atoms.map shellChar)) path.toList ∧
      ∃ values, matchAtoms atoms path.toList = some values ∧ vars = groupdict values := by
  have hplain : Unbracketed (String.ofList (atoms.map shellChar)).toList := by
    rw [String.toList_ofList]
    exact unbracketed_of_not_mem (h.not_mem_shell (by decide) (by decide))
  have hcovers := (matchTokens_iff.trans (shellCovers_iff hplain path.toList))
  rw [String.toList_ofList] at hcovers
  unfold Captures matchGlobPattern
  dsimp only
  rw [Fnmatch.fnmatch, ← hcovers]
  split
  · rename_i hmatch
    rw [regexMatch, Except.ok.injEq, Option.map_eq_some_iff]
    simp only [hmatch, true_and, eq_comm]
  · rename_i hmatch
    simp [hmatch]

/-- What comes out makes the path again: a line feed is never left over. -/
theorem PlainTemplate.makes_of_captures (h : PlainTemplate rt atoms) {path : String}
    {vars : PyVal} (hcaptures : Captures atoms path vars) :
    ∃ value, Makes atoms value path.toList ∧ vars = groupdict (assign value (atoms.map piece)) := by
  obtain ⟨hcovers, values, hvalues, rfl⟩ := h.captures_iff.mp hcaptures
  rw [matchAtoms_eq_readBack, readBack_eq_some_iff] at hvalues
  obtain ⟨hreads, hgreedy⟩ := hvalues
  obtain ⟨body, tail, hpath, htail, hwhole⟩ := reads_iff_whole.mp hreads
  rw [hpath] at hcovers hgreedy ⊢
  rcases lineEnd_iff.mp htail with rfl | rfl
  · have hnodup := h.distinct
    rw [← names_map_piece] at hnodup
    obtain ⟨value, rfl, hvalue⟩ := exists_assign_of_reads hnodup hwhole
    obtain ⟨rest, hrest, rfl⟩ := eq_fill_of_reads hwhole
    obtain rfl := List.isEmpty_iff.mp hrest
    simp only [names_map_piece, forall_inValue_iff] at hvalue
    exact ⟨value, ⟨hvalue, by simp⟩, rfl⟩
  · have hfeed := (covers_fed_iff hwhole).mp hcovers
    obtain ⟨longer, hlonger, hprecedes⟩ := h.exists_longer hfeed hwhole
    have hother : Reads inValue lineEnd (atoms.map piece) (body ++ ['\n']) longer :=
      reads_iff_whole.mpr ⟨body ++ ['\n'], [], (List.append_nil _).symm, rfl, hlonger⟩
    exact absurd hprecedes (hgreedy longer hother)

theorem PlainTemplate.captures_of_instance (h : PlainTemplate rt atoms) {path : String}
    (hpath : IsInstance atoms path.toList) : ∃ vars, Captures atoms path vars := by
  obtain ⟨values, hreads⟩ := (isInstance_iff_reads h.distinct).mp hpath
  obtain ⟨found, hfound⟩ := (matchAtoms_iff h.distinct).mpr (.inl hpath)
  exact ⟨_, h.captures_iff.mpr ⟨covers_of_reads hreads, found, hfound, rfl⟩⟩

/-- A plain template compiles, and the paths that match are its instances; the variables
make the path again. -/
theorem matches_exactly_instances (hident : PlainIdentifiers rt) (h : PlainTemplate rt atoms)
    (path : String) :
    ∃ shell regex,
      compileGlobPattern rt (.str (String.ofList (written atoms))) = .ok (shell, regex) ∧
      ((∃ vars, matchGlobPattern (.str path) (.str shell) (.pattern regex) = .ok (some vars)) ↔
        IsInstance atoms path.toList) ∧
      ∀ vars, matchGlobPattern (.str path) (.str shell) (.pattern regex) = .ok (some vars) →
        ∃ value, Makes atoms value path.toList ∧
          vars = groupdict (assign value (atoms.map piece)) := by
  refine ⟨_, _, h.compile hident, ⟨?_, h.captures_of_instance⟩, fun _ => h.makes_of_captures⟩
  rintro ⟨vars, hvars⟩
  obtain ⟨value, hmakes, -⟩ := h.makes_of_captures hvars
  exact ⟨value, hmakes⟩

end

def sockTemplate : List Atom :=
  "/run/vm-".toList.map .lit ++ [.group "owner", .lit '_', .group "vm"] ++
    ".sock".toList.map .lit

theorem plainTemplate_sock : PlainTemplate .plain sockTemplate where
  literals := by decide
  identifiers := by decide
  distinct := by decide

theorem matches_exactly_instances_sock : ∃ shell regex,
    compileGlobPattern .plain (.str "/run/vm-\x7bowner\x7d_\x7bvm\x7d.sock") =
      .ok (shell, regex) ∧
    ∃ vars, matchGlobPattern (.str "/run/vm-a_b_c.sock") (.str shell) (.pattern regex) =
      .ok (some vars) := by
  obtain ⟨shell, regex, hcompile, hiff, -⟩ :=
    matches_exactly_instances plainIdentifiers_plain plainTemplate_sock "/run/vm-a_b_c.sock"
  refine ⟨shell, regex, hcompile, hiff.mpr ?_⟩
  exact ⟨fun name => if name = "owner" then "a_b".toList else "c".toList, by decide, by decide⟩

end Vnctlsd.GlobInstances
