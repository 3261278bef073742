import Vnctlsd.GlobPatterns
import Vnctlsd.Python.Format

/-! The console configuration and its lookups.  A store is the dictionary it
holds; every lookup reads one snapshot of it. -/
namespace Vnctlsd.ConsoleConfigStore
open Vnctlsd.Python GlobPatterns

def precompilePattern (rt : Runtime) (pat : PyVal) : Py PyVal := do
  let pat ← if ← pat.contains "socket_glob" then do
      let (fnmatchPat, regex) ← compileGlobPattern rt (← pat.item "socket_glob")
      let pat ← pat.setItem "_fnmatch" (.str fnmatchPat)
      pat.setItem "_regex" (.pattern regex)
    else pure pat
  if ← pat.contains "console_name" then do
    let (_, regex) ← compileGlobPattern rt (← pat.item "console_name")
    pat.setItem "_name_regex" (.pattern regex)
  else pure pat

/-- The patterns are changed in place, so only a list of them can change. -/
def precompilePatterns (rt : Runtime) (data : PyVal) : Py PyVal := do
  let patterns ← data.get "console_patterns" .emptyList
  match patterns with
  | .list [] => pure data
  | .list pats => do
      let pats ← pats.mapM (precompilePattern rt)
      data.setItem "console_patterns" (.list pats)
  | other => do
      let pats ← other.iter
      let _ ← pats.mapM (precompilePattern rt)
      pure data

/-- Compile the template under one key, if there is one, and file the result. -/
def compileField (rt : Runtime) (source : String)
    (file : List (Key × PyVal) → String × List Atom → List (Key × PyVal))
    (entries : List (Key × PyVal)) : Py (List (Key × PyVal)) :=
  match entries.lookup (.str source) with
  | none => .ok entries
  | some template => (compileGlobPattern rt template).map (file entries)

def fileSocket (entries : List (Key × PyVal)) (found : String × List Atom) :
    List (Key × PyVal) :=
  PyVal.insertKey (PyVal.insertKey entries (.str "_fnmatch") (.str found.1))
    (.str "_regex") (.pattern found.2)

def fileName (entries : List (Key × PyVal)) (found : String × List Atom) :
    List (Key × PyVal) :=
  PyVal.insertKey entries (.str "_name_regex") (.pattern found.2)

theorem compileField_eq_ok {rt : Runtime} {source : String}
    {file : List (Key × PyVal) → String × List Atom → List (Key × PyVal)}
    {entries compiled : List (Key × PyVal)} :
    compileField rt source file entries = .ok compiled ↔
      (entries.lookup (.str source) = none ∧ compiled = entries) ∨
        ∃ template found, entries.lookup (.str source) = some template ∧
          compileGlobPattern rt template = .ok found ∧ compiled = file entries found := by
  unfold compileField
  cases entries.lookup (.str source) with
  | none => simp [eq_comm]
  | some template =>
      rw [map_eq_ok]
      constructor
      · rintro ⟨found, hfound, rfl⟩
        exact .inr ⟨template, found, rfl, hfound, rfl⟩
      · rintro (⟨hnone, -⟩ | ⟨template', found, heq, hfound, rfl⟩)
        · cases hnone
        · cases heq
          exact ⟨found, hfound, rfl⟩

theorem precompilePattern_dict (rt : Runtime) (entries : List (Key × PyVal)) :
    precompilePattern rt (.dict entries) =
      (compileField rt "socket_glob" fileSocket entries >>=
        compileField rt "console_name" fileName).map PyVal.dict := by
  have hname (found : List (Key × PyVal)) :
      (do
        if ← (PyVal.dict found).contains "console_name" then do
          let (_, regex) ← compileGlobPattern rt (← (PyVal.dict found).item "console_name")
          (PyVal.dict found).setItem "_name_regex" (.pattern regex)
        else pure (PyVal.dict found) : Py PyVal) =
        (compileField rt "console_name" fileName found).map PyVal.dict := by
    unfold compileField
    simp only [PyVal.contains, PyVal.item, bind, Except.bind]
    cases found.lookup (.str "console_name") with
    | none => rfl
    | some template =>
        simp only [Option.isSome_some, if_true]
        cases compileGlobPattern rt template <;> rfl
  unfold precompilePattern
  rw [compileField]
  simp only [PyVal.contains, PyVal.item, bind, Except.bind] at hname ⊢
  cases entries.lookup (.str "socket_glob") with
  | none => exact hname entries
  | some glob =>
      simp only [Option.isSome_some, if_true]
      cases compileGlobPattern rt glob with
      | error e => rfl
      | ok found => exact hname _

def compiledFields : List String := ["_fnmatch", "_regex", "_name_regex"]

/-- A pattern before and after compilation: only the compiled fields change, and
only where there is a template for them. -/
structure CompiledPattern (rt : Runtime) (entries compiled : List (Key × PyVal)) : Prop where
  others : ∀ key, key ∉ compiledFields → compiled.lookup (.str key) = entries.lookup (.str key)
  socket : (entries.lookup (.str "socket_glob") = none ∧
      compiled.lookup (.str "_fnmatch") = entries.lookup (.str "_fnmatch") ∧
      compiled.lookup (.str "_regex") = entries.lookup (.str "_regex")) ∨
    ∃ glob found, entries.lookup (.str "socket_glob") = some glob ∧
      compileGlobPattern rt glob = .ok found ∧
      compiled.lookup (.str "_fnmatch") = some (.str found.1) ∧
      compiled.lookup (.str "_regex") = some (.pattern found.2)
  name : (entries.lookup (.str "console_name") = none ∧
      compiled.lookup (.str "_name_regex") = entries.lookup (.str "_name_regex")) ∨
    ∃ template found, entries.lookup (.str "console_name") = some template ∧
      compileGlobPattern rt template = .ok found ∧
      compiled.lookup (.str "_name_regex") = some (.pattern found.2)

section

variable {rt : Runtime} {entries compiled : List (Key × PyVal)}

theorem CompiledPattern.socket_of_none (h : CompiledPattern rt entries compiled)
    (hnone : entries.lookup (.str "socket_glob") = none) :
    compiled.lookup (.str "_fnmatch") = entries.lookup (.str "_fnmatch") ∧
      compiled.lookup (.str "_regex") = entries.lookup (.str "_regex") := by
  rcases h.socket with ⟨-, hsame⟩ | ⟨glob, found, hglob, -⟩
  · exact hsame
  · rw [hnone] at hglob
    cases hglob

theorem CompiledPattern.socket_of_some (h : CompiledPattern rt entries compiled) {glob : PyVal}
    (hglob : entries.lookup (.str "socket_glob") = some glob) :
    ∃ found, compileGlobPattern rt glob = .ok found ∧
      compiled.lookup (.str "_fnmatch") = some (.str found.1) ∧
      compiled.lookup (.str "_regex") = some (.pattern found.2) := by
  rcases h.socket with ⟨hnone, -⟩ | ⟨other, found, hother, hfound⟩
  · rw [hglob] at hnone
    cases hnone
  · cases hother.symm.trans hglob
    exact ⟨found, hfound⟩

theorem CompiledPattern.name_of_none (h : CompiledPattern rt entries compiled)
    (hnone : entries.lookup (.str "console_name") = none) :
    compiled.lookup (.str "_name_regex") = entries.lookup (.str "_name_regex") := by
  rcases h.name with ⟨-, hsame⟩ | ⟨template, found, htemplate, -⟩
  · exact hsame
  · rw [hnone] at htemplate
    cases htemplate

theorem CompiledPattern.name_of_some (h : CompiledPattern rt entries compiled)
    {template : PyVal} (htemplate : entries.lookup (.str "console_name") = some template) :
    ∃ found, compileGlobPattern rt template = .ok found ∧
      compiled.lookup (.str "_name_regex") = some (.pattern found.2) := by
  rcases h.name with ⟨hnone, -⟩ | ⟨other, found, hother, hfound⟩
  · rw [htemplate] at hnone
    cases hnone
  · cases hother.symm.trans htemplate
    exact ⟨found, hfound⟩

end

theorem lookup_fileName_of_ne {key : String} (hkey : key ≠ "_name_regex")
    (entries : List (Key × PyVal)) (found : String × List Atom) :
    (fileName entries found).lookup (.str key) = entries.lookup (.str key) :=
  PyVal.lookup_insertKey_of_ne (fun heq => hkey (Key.str.inj heq)) entries _

theorem lookup_fileSocket_of_ne {key : String} (hfn : key ≠ "_fnmatch") (hregex : key ≠ "_regex")
    (entries : List (Key × PyVal)) (found : String × List Atom) :
    (fileSocket entries found).lookup (.str key) = entries.lookup (.str key) := by
  unfold fileSocket
  rw [PyVal.lookup_insertKey_of_ne fun heq => hregex (Key.str.inj heq)]
  exact PyVal.lookup_insertKey_of_ne (fun heq => hfn (Key.str.inj heq)) entries _

theorem compiledPattern_of_file {rt : Runtime} {entries middle compiled : List (Key × PyVal)}
    (hsocket : compileField rt "socket_glob" fileSocket entries = .ok middle)
    (hname : compileField rt "console_name" fileName middle = .ok compiled) :
    CompiledPattern rt entries compiled := by
  have hmiddle : ∀ key, key ≠ "_fnmatch" → key ≠ "_regex" →
      middle.lookup (.str key) = entries.lookup (.str key) := by
    intro key hfn hregex
    rcases compileField_eq_ok.mp hsocket with ⟨-, rfl⟩ | ⟨glob, found, -, -, rfl⟩
    · rfl
    · exact lookup_fileSocket_of_ne hfn hregex entries found
  have hcompiled : ∀ key, key ≠ "_name_regex" →
      compiled.lookup (.str key) = middle.lookup (.str key) := by
    intro key hkey
    rcases compileField_eq_ok.mp hname with ⟨-, rfl⟩ | ⟨template, found, -, -, rfl⟩
    · rfl
    · exact lookup_fileName_of_ne hkey middle found
  constructor
  · intro key hkey
    simp only [compiledFields, List.mem_cons, List.not_mem_nil, or_false, not_or] at hkey
    rw [hcompiled key hkey.2.2, hmiddle key hkey.1 hkey.2.1]
  · rw [hcompiled "_fnmatch" (by decide), hcompiled "_regex" (by decide)]
    rcases compileField_eq_ok.mp hsocket with ⟨hnone, rfl⟩ | ⟨glob, found, hglob, hfound, rfl⟩
    · exact .inl ⟨hnone, rfl, rfl⟩
    · refine .inr ⟨glob, found, hglob, hfound, ?_, PyVal.lookup_insertKey_self ..⟩
      unfold fileSocket
      rw [PyVal.lookup_insertKey_of_ne (by decide), PyVal.lookup_insertKey_self]
  · rw [← hmiddle "console_name" (by decide) (by decide),
      ← hmiddle "_name_regex" (by decide) (by decide)]
    rcases compileField_eq_ok.mp hname with ⟨hnone, rfl⟩ | ⟨template, found, htemplate, hfound, rfl⟩
    · exact .inl ⟨hnone, rfl⟩
    · exact .inr ⟨template, found, htemplate, hfound, PyVal.lookup_insertKey_self ..⟩

theorem precompilePattern_spec {rt : Runtime} {entries : List (Key × PyVal)} {compiled : PyVal}
    (h : precompilePattern rt (.dict entries) = .ok compiled) :
    ∃ found, compiled = .dict found ∧ CompiledPattern rt entries found := by
  rw [precompilePattern_dict] at h
  obtain ⟨found, hfound, rfl⟩ := map_eq_ok.mp h
  obtain ⟨middle, hsocket, hname⟩ := bind_eq_ok.mp hfound
  exact ⟨found, rfl, compiledPattern_of_file hsocket hname⟩

theorem compileField_returns {rt : Runtime} {source : String}
    (file : List (Key × PyVal) → String × List Atom → List (Key × PyVal))
    {entries : List (Key × PyVal)}
    (h : ∀ template, entries.lookup (.str source) = some template →
      ∃ found, compileGlobPattern rt template = .ok found) :
    ∃ compiled, compileField rt source file entries = .ok compiled := by
  cases hlookup : entries.lookup (.str source) with
  | none => exact ⟨entries, compileField_eq_ok.mpr (.inl ⟨hlookup, rfl⟩)⟩
  | some template =>
      obtain ⟨found, hfound⟩ := h template hlookup
      exact ⟨_, compileField_eq_ok.mpr (.inr ⟨template, found, hlookup, hfound, rfl⟩)⟩

theorem precompilePattern_returns {rt : Runtime} {entries : List (Key × PyVal)}
    (hsocket : ∀ glob, entries.lookup (.str "socket_glob") = some glob →
      ∃ found, compileGlobPattern rt glob = .ok found)
    (hname : ∀ template, entries.lookup (.str "console_name") = some template →
      ∃ found, compileGlobPattern rt template = .ok found) :
    ∃ compiled, precompilePattern rt (.dict entries) = .ok compiled := by
  obtain ⟨middle, hmiddle⟩ := compileField_returns fileSocket hsocket
  have hsame : middle.lookup (.str "console_name") = entries.lookup (.str "console_name") := by
    rcases compileField_eq_ok.mp hmiddle with ⟨-, rfl⟩ | ⟨glob, found, -, -, rfl⟩
    · rfl
    · exact lookup_fileSocket_of_ne (by decide) (by decide) entries found
  rw [← hsame] at hname
  obtain ⟨compiled, hcompiled⟩ := compileField_returns fileName hname
  refine ⟨.dict compiled, ?_⟩
  rw [precompilePattern_dict, hmiddle]
  exact map_eq_ok.mpr ⟨compiled, hcompiled, rfl⟩

/-- Anything but a dictionary passes only if neither key is found in it, and is
left as it is. -/
theorem precompilePattern_other {rt : Runtime} {pat compiled : PyVal}
    (hpat : ∀ entries, pat ≠ .dict entries) :
    precompilePattern rt pat = .ok compiled ↔ pat.contains "socket_glob" = .ok false ∧
      pat.contains "console_name" = .ok false ∧ compiled = pat := by
  have hitem (key : String) : ∃ e, pat.item key = .error e := by
    cases pat with
    | dict entries => exact absurd rfl (hpat entries)
    | none | bool | int | float | str | list | pattern | date => exact ⟨_, rfl⟩
  obtain ⟨glob, hglob⟩ := hitem "socket_glob"
  obtain ⟨template, htemplate⟩ := hitem "console_name"
  simp only [precompilePattern, hglob, htemplate, bind, Except.bind, pure, Except.pure]
  cases pat.contains "socket_glob" with
  | error e => simp
  | ok present =>
      cases present with
      | true => simp
      | false =>
          cases pat.contains "console_name" with
          | error e => simp
          | ok present => cases present <;> simp [eq_comm]

/-- The patterns of a configuration after compilation. -/
def compileSection (rt : Runtime) : Option PyVal → Py (Option PyVal)
  | none => .ok none
  | some (.list pats) => (pats.mapM (precompilePattern rt)).map fun pats => some (.list pats)
  | some other => do
      let pats ← other.iter
      let _ ← pats.mapM (precompilePattern rt)
      pure (some other)

/-- Patterns that are no list are looked through, and stay as they are. -/
theorem compileSection_other {rt : Runtime} {pats : PyVal} {found : Option PyVal}
    (hpats : ∀ items, pats ≠ .list items) (h : compileSection rt (some pats) = .ok found) :
    found = some pats ∧ ∃ items results, pats.iter = .ok items ∧
      items.mapM (precompilePattern rt) = .ok results := by
  cases pats with
  | list items => exact absurd rfl (hpats items)
  | none | bool | int | float | str | dict | pattern | date =>
      obtain ⟨items, hitems, h⟩ := bind_eq_ok.mp h
      obtain ⟨results, hresults, h⟩ := bind_eq_ok.mp h
      exact ⟨(Except.ok.inj h).symm, items, results, hitems, hresults⟩

theorem precompilePatterns_dict (rt : Runtime) (entries : List (Key × PyVal)) :
    precompilePatterns rt (.dict entries) =
      (compileSection rt (entries.lookup (.str "console_patterns"))).map fun found =>
        .dict (match found with
          | none => entries
          | some pats => PyVal.insertKey entries (.str "console_patterns") pats) := by
  unfold precompilePatterns
  cases hlookup : entries.lookup (.str "console_patterns") with
  | none =>
      simp only [PyVal.get_dict, hlookup]
      rfl
  | some pats =>
      have hsame := PyVal.insertKey_of_lookup hlookup
      simp only [PyVal.get_dict, hlookup, Option.getD_some, bind, Except.bind]
      cases pats with
      | list items =>
          cases items with
          | nil =>
              rw [compileSection]
              simp [hsame, pure, Except.pure, Except.map]
          | cons item rest =>
              dsimp only
              rw [compileSection]
              cases (item :: rest).mapM (precompilePattern rt) <;> rfl
      | none | bool | int | float | pattern | date => rfl
      | str | dict =>
          simp only [compileSection, PyVal.iter, bind, Except.bind]
          split
          · rfl
          · simp only [Except.map, pure, Except.pure, hsame]

theorem precompilePatterns_eq_ok {rt : Runtime} {data cfg : PyVal}
    (h : precompilePatterns rt data = .ok cfg) : ∃ entries found, data = .dict entries ∧
      compileSection rt (entries.lookup (.str "console_patterns")) = .ok found ∧
      cfg = .dict (match found with
        | none => entries
        | some pats => PyVal.insertKey entries (.str "console_patterns") pats) := by
  obtain ⟨pats, hpats, -⟩ := bind_eq_ok.mp h
  obtain ⟨entries, rfl⟩ := PyVal.eq_dict_of_get_ok hpats
  rw [precompilePatterns_dict] at h
  obtain ⟨found, hfound, hcfg⟩ := map_eq_ok.mp h
  exact ⟨entries, found, rfl, hfound, hcfg.symm⟩

theorem compileSection_none {rt : Runtime} {pats : Option PyVal}
    (h : compileSection rt pats = .ok none) : pats = none := by
  cases pats with
  | none => rfl
  | some value =>
      cases value with
      | list items =>
          obtain ⟨compiled, -, heq⟩ := map_eq_ok.mp h
          cases heq
      | none | bool | int | float | str | dict | pattern | date =>
          obtain ⟨heq, -⟩ := compileSection_other (by intro items heq; cases heq) h
          cases heq

/-- Compilation touches the patterns and nothing else. -/
structure Precompiled (rt : Runtime) (data cfg : PyVal)
    (entries compiled : List (Key × PyVal)) : Prop where
  file : data = .dict entries
  store : cfg = .dict compiled
  patterns : compileSection rt (entries.lookup (.str "console_patterns")) =
    .ok (compiled.lookup (.str "console_patterns"))
  others : ∀ key, key ≠ .str "console_patterns" → compiled.lookup key = entries.lookup key

theorem precompilePatterns_spec {rt : Runtime} {data cfg : PyVal}
    (h : precompilePatterns rt data = .ok cfg) :
    ∃ entries compiled, Precompiled rt data cfg entries compiled := by
  obtain ⟨entries, found, rfl, hfound, rfl⟩ := precompilePatterns_eq_ok h
  cases found with
  | none =>
      have hnone := compileSection_none hfound
      exact ⟨entries, entries, rfl, rfl, by rw [hnone]; rfl, fun key _ => rfl⟩
  | some pats =>
      refine ⟨entries, _, rfl, rfl, ?_, ?_⟩
      · rw [hfound, PyVal.lookup_insertKey_self]
      · intro key hkey
        exact PyVal.lookup_insertKey_of_ne hkey entries pats

/-- Only a list has dictionaries among its items. -/
theorem not_mem_iter_of_not_list {value : PyVal} {items : List PyVal}
    {entries : List (Key × PyVal)} (hvalue : ∀ items, value ≠ .list items)
    (hitems : value.iter = .ok items) : .dict entries ∉ items := by
  intro hmem
  cases value with
  | list items => exact hvalue items rfl
  | dict fields =>
      cases hitems
      obtain ⟨field, -, heq⟩ := List.mem_map.mp hmem
      exact PyVal.ofKey_ne_dict field.1 entries heq
  | str text =>
      cases hitems
      obtain ⟨c, -, heq⟩ := List.mem_map.mp hmem
      cases heq
  | none | bool | int | float | pattern | date => cases hitems

/-- A dictionary among the patterns of a loaded configuration is a compiled one. -/
theorem compiledPattern_of_mem {rt : Runtime} {data cfg pats : PyVal} {items : List PyVal}
    {compiled : List (Key × PyVal)} (hload : precompilePatterns rt data = .ok cfg)
    (hpats : cfg.get "console_patterns" .emptyList = .ok pats) (hitems : pats.iter = .ok items)
    (hmem : .dict compiled ∈ items) : ∃ entries, CompiledPattern rt entries compiled := by
  obtain ⟨entries, stored, loaded⟩ := precompilePatterns_spec hload
  rw [loaded.store, PyVal.get_dict] at hpats
  have hsection := loaded.patterns
  cases hstored : stored.lookup (.str "console_patterns") with
  | none =>
      rw [hstored] at hpats
      cases hpats
      cases hitems
      cases hmem
  | some value =>
      rw [hstored] at hpats hsection
      obtain rfl : value = pats := Except.ok.inj hpats
      cases hlookup : entries.lookup (.str "console_patterns") with
      | none =>
          rw [hlookup] at hsection
          cases hsection
      | some raw =>
          rw [hlookup] at hsection
          cases raw with
          | list pats =>
              obtain ⟨results, hresults, heq⟩ := map_eq_ok.mp hsection
              cases heq
              cases hitems
              obtain ⟨pat, -, hpat⟩ := mem_of_mapM hresults _ hmem
              cases pat with
              | dict fields =>
                  obtain ⟨found, heq, hfound⟩ := precompilePattern_spec hpat
                  cases heq
                  exact ⟨fields, hfound⟩
              | none | bool | int | float | str | list | pattern | date =>
                  obtain ⟨-, -, heq⟩ :=
                    (precompilePattern_other (by intro fields heq; cases heq)).mp hpat
                  cases heq
          | none | bool | int | float | str | dict | pattern | date =>
              obtain ⟨heq, -⟩ := compileSection_other (by intro items heq; cases heq) hsection
              cases heq
              exact absurd hmem (not_mem_iter_of_not_list (by intro items heq; cases heq) hitems)

/-- What the parser gives; an empty file is an empty configuration. -/
def loadConsoleConfig (rt : Runtime) (content : PyVal) : Py PyVal :=
  precompilePatterns rt (content.orElse .emptyDict)

def isPrivate (key : String) : Bool := key.toList.head? == some '_'

mutual

def strip : PyVal → Py PyVal
  | .list items => do
      let items ← stripItems items
      pure (.list items)
  | .dict entries => do
      let entries ← stripEntries entries
      pure (.dict entries)
  | value => .ok value

def stripItems : List PyVal → Py (List PyVal)
  | [] => .ok []
  | item :: rest => do
      let item ← strip item
      let others ← stripItems rest
      pure (item :: others)

def stripEntries : List (Key × PyVal) → Py (List (Key × PyVal))
  | [] => .ok []
  | (.str key, value) :: rest =>
      if isPrivate key then stripEntries rest
      else do
        let value ← strip value
        let others ← stripEntries rest
        pure ((.str key, value) :: others)
  | (other, _) :: _ => (PyVal.ofKey other).noAttribute "startswith"

end

def getRaw (cfg : PyVal) : Py PyVal := strip cfg

def update (rt : Runtime) (rawDict : PyVal) : Py PyVal := precompilePatterns rt rawDict

def matchExplicitSocket (socketPath : PyVal) :
    List (Key × PyVal) → Py (Option PyVal)
  | [] => .ok none
  | entry :: rest => do
      let socket ← entry.2.get "socket" .none
      if socket.eq socketPath then
        let defn ← entry.2.setItem "_console_name" (.ofKey entry.1)
        pure (some defn)
      else matchExplicitSocket socketPath rest

def matchSocketPattern (socketPath : PyVal) : List PyVal → Py (Option (PyVal × PyVal))
  | [] => .ok none
  | pat :: rest => do
      if ← pat.contains "_fnmatch" then
        let vars ← matchGlobPattern socketPath (← pat.item "_fnmatch") (← pat.item "_regex")
        match vars with
        | some vars => pure (some (pat, vars))
        | none => matchSocketPattern socketPath rest
      else matchSocketPattern socketPath rest

theorem matchSocketPattern_spec {socketPath pat vars : PyVal} {pats : List PyVal}
    (h : matchSocketPattern socketPath pats = .ok (some (pat, vars))) :
    pat ∈ pats ∧ ∃ fnmatchPat regex, pat.item "_fnmatch" = .ok fnmatchPat ∧
      pat.item "_regex" = .ok regex ∧
      matchGlobPattern socketPath fnmatchPat regex = .ok (some vars) := by
  induction pats with
  | nil => cases h
  | cons head rest ih =>
      obtain ⟨present, -, h⟩ := bind_eq_ok.mp h
      cases present with
      | false =>
          obtain ⟨hmem, hspec⟩ := ih h
          exact ⟨List.mem_cons_of_mem _ hmem, hspec⟩
      | true =>
          obtain ⟨fnmatchPat, hfn, h⟩ := bind_eq_ok.mp h
          obtain ⟨regex, hregex, h⟩ := bind_eq_ok.mp h
          obtain ⟨found, hglob, h⟩ := bind_eq_ok.mp h
          cases found with
          | none =>
              obtain ⟨hmem, hspec⟩ := ih h
              exact ⟨List.mem_cons_of_mem _ hmem, hspec⟩
          | some found =>
              cases h
              exact ⟨List.mem_cons_self .., fnmatchPat, regex, hfn, hregex, hglob⟩

def matchSocket (cfg socketPath : PyVal) : Py (Option (PyVal × PyVal)) := do
  let consoles ← (← cfg.get "consoles" .emptyDict).items
  match ← matchExplicitSocket socketPath consoles with
  | some defn => pure (some (defn, .emptyDict))
  | none => do
      let pats ← (← cfg.get "console_patterns" .emptyList).iter
      matchSocketPattern socketPath pats

/-- `pwd.getpwnam(name).pw_uid`; `none` is its `KeyError`. -/
abbrev Passwd := String → Option Nat

def getpwnam (passwd : Passwd) (name : String) : Py (Option Nat) :=
  if name.toList.contains '\x00' then raise .valueError "embedded null byte"
  else .ok (passwd name)

def resolveTrustedUid (rt : Runtime) (passwd : Passwd) (cfg defn vars : PyVal) :
    Py (Option Int) := do
  let globalUidName ← (← cfg.get "socket_validation" .emptyDict).get "trusted_uid" (.str "")
  let uidName ← (← defn.get "validation" .emptyDict).get "trusted_uid" globalUidName
  if !uidName.truthy then return none
  let name ← onKeyError (Format.formatStar rt uidName vars) (rt.str uidName)
  match ← getpwnam passwd name with
  | some uid => pure (some (uid : Int))
  | none => pure (Text.int? name)

def getCommand (cfg : PyVal) (action : String) : Py PyVal := do
  (← cfg.get "commands" .emptyDict).get action .none

def getAllCommands (cfg : PyVal) : Py (List PyVal) := do
  let commands ← (← cfg.get "commands" .emptyDict).items
  pure (commands.map fun entry => PyVal.ofKey entry.1)

def getWatchDir (cfg : PyVal) : Py PyVal := do
  (← cfg.get "socket_validation" .emptyDict).get "watch_dir" (.str "/run/vnctlsd/")

def getDefaultExec (cfg : PyVal) : Py (Option PyVal) := do
  let defn ← (← cfg.get "defaults" .emptyDict).get "console" .none
  if !defn.truthy then return none
  let ctype ← defn.get "type" (.str "exec")
  pure (if ctype.eqStr "exec" then some defn else none)

def matchNamePattern (cname : String) : List PyVal → Py (Option (PyVal × PyVal))
  | [] => .ok none
  | pat :: rest => do
      let nameRegex ← pat.get "_name_regex" .none
      if nameRegex.isNone then matchNamePattern cname rest
      else
        match ← regexMatch nameRegex cname with
        | some vars => pure (some (pat, vars))
        | none => matchNamePattern cname rest

/-- The pattern has no template for names, or one that does not fit the name. -/
def PassedOver (cname : String) (pat : PyVal) : Prop :=
  pat.get "_name_regex" .none = .ok .none ∨
    ∃ atoms, pat.get "_name_regex" .none = .ok (.pattern atoms) ∧
      matchAtoms atoms cname.toList = none

theorem matchNamePattern_cons_iff {cname : String} {head : PyVal} {rest : List PyVal}
    {found : PyVal × PyVal} :
    matchNamePattern cname (head :: rest) = .ok (some found) ↔
      (PassedOver cname head ∧ matchNamePattern cname rest = .ok (some found)) ∨
        ∃ atoms values, head.get "_name_regex" .none = .ok (.pattern atoms) ∧
          matchAtoms atoms cname.toList = some values ∧ found = (head, groupdict values) := by
  rw [matchNamePattern, PassedOver]
  cases head.get "_name_regex" .none with
  | error e => simp [bind, Except.bind]
  | ok regex =>
      cases regex with
      | none => simp [bind, Except.bind]
      | pattern atoms =>
          simp only [bind, Except.bind, PyVal.isNone, Bool.false_eq_true, if_false, regexMatch]
          cases hmatch : matchAtoms atoms cname.toList with
          | none => simp [hmatch]
          | some values =>
              simp only [Option.map_some, pure, Except.pure, Except.ok.injEq, Option.some.injEq,
                PyVal.pattern.injEq, reduceCtorEq, false_or, exists_and_left, exists_eq_left',
                hmatch, false_and]
              exact eq_comm
      | bool | int | float | str | list | dict | date =>
          simp [bind, Except.bind, PyVal.isNone, regexMatch, PyVal.noAttribute, raise]

theorem matchNamePattern_eq_some_iff {cname : String} {pats : List PyVal} {pat vars : PyVal} :
    matchNamePattern cname pats = .ok (some (pat, vars)) ↔
      ∃ before after atoms values, pats = before ++ pat :: after ∧
        (∀ earlier ∈ before, PassedOver cname earlier) ∧
        pat.get "_name_regex" .none = .ok (.pattern atoms) ∧
        matchAtoms atoms cname.toList = some values ∧ vars = groupdict values := by
  induction pats with
  | nil =>
      refine ⟨nofun, ?_⟩
      rintro ⟨before, after, atoms, values, heq, -⟩
      exact absurd heq.symm (List.append_ne_nil_of_right_ne_nil _ (List.cons_ne_nil _ _))
  | cons head rest ih =>
      rw [matchNamePattern_cons_iff, ih]
      constructor
      · rintro (⟨hpassed, before, after, atoms, values, rfl, hbefore, hfound⟩ |
          ⟨atoms, values, hregex, hmatch, heq⟩)
        · refine ⟨head :: before, after, atoms, values, rfl, ?_, hfound⟩
          exact List.forall_mem_cons.mpr ⟨hpassed, hbefore⟩
        · cases heq
          exact ⟨[], rest, atoms, values, rfl, nofun, hregex, hmatch, rfl⟩
      · rintro ⟨before, after, atoms, values, heq, hbefore, hregex, hmatch, rfl⟩
        cases before with
        | nil =>
            cases heq
            exact .inr ⟨atoms, values, hregex, hmatch, rfl⟩
        | cons first before =>
            cases heq
            obtain ⟨hpassed, hbefore⟩ := List.forall_mem_cons.mp hbefore
            exact .inl ⟨hpassed, before, after, atoms, values, rfl, hbefore, hregex, hmatch, rfl⟩

def matchConsoleName (cfg : PyVal) (cname : String) : Py (Option (PyVal × PyVal)) := do
  let pats ← (← cfg.get "console_patterns" .emptyList).iter
  matchNamePattern cname pats

/-- `cfg.get('consoles', {}).get(cname)`. -/
def explicitConsole (cfg : PyVal) (cname : String) : Py PyVal := do
  (← cfg.get "consoles" .emptyDict).get cname .none

end Vnctlsd.ConsoleConfigStore
