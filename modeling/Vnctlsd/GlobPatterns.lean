import Vnctlsd.Python.Fnmatch

/-! Socket globs and console name templates with `{name}` placeholders: the
shell pattern used as a pre-filter and the anchored regular expression that
captures the placeholders. -/
namespace Vnctlsd.GlobPatterns
open Vnctlsd.Python

/-- A placeholder `{name}` behind its opening brace: the name is everything up
to the next closing brace and is not empty. -/
def placeholder? (s : List Char) : Option (List Char × List Char) :=
  let name := s.takeWhile (· != '}')
  match s.dropWhile (· != '}') with
  | [] => none
  | _ :: rest => if name.isEmpty then none else some (name, rest)

/-- Every placeholder becomes `*`.  Every turn takes at least one character. -/
def fnmatchFrom : Nat → List Char → List Char
  | 0, _ => []
  | _, [] => []
  | fuel + 1, c :: rest =>
      if c = '{' then
        match placeholder? rest with
        | some (_, rest) => '*' :: fnmatchFrom fuel rest
        | none => c :: fnmatchFrom fuel rest
      else c :: fnmatchFrom fuel rest

def atomsFrom : Nat → List Char → List Atom
  | 0, _ => []
  | _, [] => []
  | fuel + 1, c :: rest =>
      if c = '{' then
        match placeholder? rest with
        | some (name, rest) => .group (String.ofList name) :: atomsFrom fuel rest
        | none => .lit c :: atomsFrom fuel rest
      else .lit c :: atomsFrom fuel rest

def groupNames (atoms : List Atom) : List String :=
  atoms.filterMap fun atom => match atom with
    | .lit _ => none
    | .group name => some name

/-- `re.compile` refuses a group name that is no identifier, and a second group
of the same name. -/
def compileRegex (rt : Runtime) (atoms : List Atom) : Py (List Atom) :=
  if !(groupNames atoms).all rt.isIdentifier then
    raise .reError "bad character in group name"
  else if (groupNames atoms).Nodup then .ok atoms
  else raise .reError "redefinition of group name"

def compileGlobPattern (rt : Runtime) (glob : PyVal) : Py (String × List Atom) :=
  match glob with
  | .str s => do
      let chars := s.toList
      let regex ← compileRegex rt (atomsFrom chars.length chars)
      pure (String.ofList (fnmatchFrom chars.length chars), regex)
  | other =>
      raise .typeError s!"expected string or bytes-like object, got '{other.typeName}'"

/-- The anchored match: groups take as many characters other than `/` as they
can, the first from the left having precedence, and `$` also matches before a
final line feed. -/
def matchAtoms : List Atom → List Char → Option (List (String × List Char))
  | [], s => if s = [] ∨ s = ['\n'] then some [] else none
  | .lit c :: rest, s =>
      match s with
      | [] => none
      | d :: s => if c = d then matchAtoms rest s else none
  | .group name :: rest, s =>
      let run := (s.takeWhile (· != '/')).length
      (List.range run).reverse.findSome? fun k =>
        (matchAtoms rest (s.drop (k + 1))).map fun vars => (name, s.take (k + 1)) :: vars

def groupdict (vars : List (String × List Char)) : PyVal :=
  .ofFields (vars.map fun var => (var.1, .str (String.ofList var.2)))

def regexMatch (regex : PyVal) (text : String) : Py (Option PyVal) :=
  match regex with
  | .pattern atoms => .ok ((matchAtoms atoms text.toList).map groupdict)
  | other => other.noAttribute "match"

def matchGlobPattern (path fnmatchPat regex : PyVal) : Py (Option PyVal) :=
  match path, fnmatchPat with
  | .str path, .str pattern =>
      if Fnmatch.fnmatch path pattern then regexMatch regex path else .ok none
  | .str _, other | other, _ =>
      raise .typeError s!"expected str, bytes or os.PathLike object, not {other.typeName}"

theorem compileGlobPattern_eq_ok {rt : Runtime} {glob : PyVal} {shell : String}
    {atoms : List Atom} (h : compileGlobPattern rt glob = .ok (shell, atoms)) :
    ∃ s, glob = .str s ∧ atoms = atomsFrom s.toList.length s.toList ∧
      (∀ name ∈ groupNames atoms, rt.isIdentifier name = true) ∧ (groupNames atoms).Nodup := by
  cases glob with
  | str s =>
      obtain ⟨regex, hregex, h⟩ := bind_eq_ok.mp h
      cases h
      unfold compileRegex at hregex
      split at hregex
      · cases hregex
      · rename_i hnames
        split at hregex
        · cases hregex
          refine ⟨s, rfl, rfl, fun name hname => ?_, ‹_›⟩
          simp only [Bool.not_eq_true', Bool.not_eq_false, List.all_eq_true] at hnames
          exact hnames name hname
        · cases hregex
  | none | bool | int | float | list | dict | pattern | date => cases h

theorem matchAtoms_nil {atoms : List Atom} {vars : List (String × List Char)}
    (h : matchAtoms atoms [] = some vars) : atoms = [] := by
  cases atoms with
  | nil => rfl
  | cons atom rest => cases atom <;> simp [matchAtoms] at h

theorem matchGlobPattern_spec {path : String} {fnmatchPat regex vars : PyVal}
    (h : matchGlobPattern (.str path) fnmatchPat regex = .ok (some vars)) :
    ∃ atoms found, regex = .pattern atoms ∧ matchAtoms atoms path.toList = some found ∧
      vars = groupdict found := by
  cases fnmatchPat with
  | str pattern =>
      simp only [matchGlobPattern] at h
      split at h
      · cases regex with
        | pattern atoms =>
            simp only [regexMatch, Except.ok.injEq, Option.map_eq_some_iff] at h
            obtain ⟨found, hfound, rfl⟩ := h
            exact ⟨atoms, found, rfl, hfound, rfl⟩
        | none | bool | int | float | str | list | dict | date => cases h
      · cases h
  | none | bool | int | float | list | dict | pattern | date => cases h

example : (compileGlobPattern .plain (.str "/run/vm-{name}.sock")).map Prod.fst =
    .ok "/run/vm-*.sock" := by decide

end Vnctlsd.GlobPatterns
