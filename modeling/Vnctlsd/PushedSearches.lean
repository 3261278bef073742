import Vnctlsd.Library.Scan
import Vnctlsd.PushedConfig

/-! The searches by socket path and by console name, on a store and on the one that
`update` makes of its `get_raw`. -/
namespace Vnctlsd.PushedSearches
open Vnctlsd.Library.Scan Vnctlsd.Python GlobPatterns ConsoleConfigStore ConfigPush PushedConfig

/-- What a search by socket path looks at: the explicit consoles, then the patterns. -/
inductive Candidate where
  | console (name : Key) (defn : PyVal)
  | pattern (pat : PyVal)

def candidates (consoles : List (Key × PyVal)) (pats : List PyVal) : List Candidate :=
  consoles.map (fun entry => .console entry.1 entry.2) ++ pats.map .pattern

def consoleAnswer (path : String) (name : Key) (defn : PyVal) : Py (Option (PyVal × PyVal)) := do
  let socket ← defn.get "socket" .none
  if socket.eq (.str path) then
    let defn ← defn.setItem "_console_name" (.ofKey name)
    pure (some (defn, .emptyDict))
  else pure none

def patternAnswer (path : String) (pat : PyVal) : Py (Option (PyVal × PyVal)) := do
  if ← pat.contains "_fnmatch" then
    let vars ← matchGlobPattern (.str path) (← pat.item "_fnmatch") (← pat.item "_regex")
    pure (vars.map fun vars => (pat, vars))
  else pure none

def socketAnswer (path : String) : Candidate → Py (Option (PyVal × PyVal))
  | .console name defn => consoleAnswer path name defn
  | .pattern pat => patternAnswer path pat

def nameAnswer (cname : String) (pat : PyVal) : Py (Option (PyVal × PyVal)) := do
  let nameRegex ← pat.get "_name_regex" .none
  if nameRegex.isNone then pure none
  else
    let vars ← regexMatch nameRegex cname
    pure (vars.map fun vars => (pat, vars))

theorem matchNamePattern_eq (cname : String) (pats : List PyVal) :
    matchNamePattern cname pats = pats.findSomeM? (nameAnswer cname) := by
  induction pats with
  | nil => rfl
  | cons pat rest ih =>
      rw [List.findSomeM?_cons, matchNamePattern, nameAnswer, ih]
      simp only [bind, Except.bind]
      cases pat.get "_name_regex" .none with
      | error e => rfl
      | ok nameRegex =>
          cases hnone : nameRegex.isNone with
          | true => simp [hnone, pure, Except.pure]
          | false =>
              simp only [hnone, Bool.false_eq_true, if_false]
              cases regexMatch nameRegex cname with
              | error e => rfl
              | ok vars => cases vars <;> rfl

theorem matchSocketPattern_eq (path : String) (pats : List PyVal) :
    matchSocketPattern (.str path) pats = (pats.map .pattern).findSomeM? (socketAnswer path) := by
  induction pats with
  | nil => rfl
  | cons pat rest ih =>
      rw [List.map_cons, List.findSomeM?_cons, matchSocketPattern, socketAnswer, patternAnswer, ih]
      simp only [bind, Except.bind]
      cases pat.contains "_fnmatch" with
      | error e => rfl
      | ok present =>
          cases present with
          | false => rfl
          | true =>
              simp only [if_true]
              cases pat.item "_fnmatch" with
              | error e => rfl
              | ok fnmatchPat =>
                  cases pat.item "_regex" with
                  | error e => rfl
                  | ok regex =>
                      dsimp only
                      cases matchGlobPattern (.str path) fnmatchPat regex with
                      | error e => rfl
                      | ok vars => cases vars <;> rfl

theorem matchSocket_eq {cfg pats : PyVal} {consoles : List (Key × PyVal)} {items : List PyVal}
    (hconsoles : cfg.get "consoles" .emptyDict = .ok (.dict consoles))
    (hpats : cfg.get "console_patterns" .emptyList = .ok pats) (hitems : pats.iter = .ok items)
    (path : String) :
    matchSocket cfg (.str path) = (candidates consoles items).findSomeM? (socketAnswer path) := by
  simp only [matchSocket, hconsoles, hpats, hitems, PyVal.items, bind, Except.bind,
    matchSocketPattern_eq, candidates]
  clear hconsoles
  induction consoles with
  | nil => rfl
  | cons entry rest ih =>
      rw [List.map_cons, List.cons_append, List.findSomeM?_cons, matchExplicitSocket, socketAnswer,
        consoleAnswer]
      simp only [bind, Except.bind]
      cases entry.2.get "socket" .none with
      | error e => rfl
      | ok socket =>
          cases hsocket : socket.eq (.str path) with
          | false =>
              simp only [hsocket, Bool.false_eq_true, if_false]
              exact ih
          | true =>
              simp only [hsocket, if_true]
              cases entry.2.setItem "_console_name" (.ofKey entry.1) <;> rfl

/-- The answer of a pattern whose glob was compiled. -/
theorem patternAnswer_compiled {path shell : String} {atoms : List Atom}
    {entries : List (Key × PyVal)} (hfn : entries.lookup (.str "_fnmatch") = some (.str shell))
    (hregex : entries.lookup (.str "_regex") = some (.pattern atoms)) :
    patternAnswer path (.dict entries) =
      (matchGlobPattern (.str path) (.str shell) (.pattern atoms)).map fun vars =>
        vars.map fun vars => (.dict entries, vars) := by
  simp only [patternAnswer, PyVal.contains, PyVal.item, hfn, hregex, bind, Except.bind,
    Option.isSome_some, if_true]
  cases matchGlobPattern (.str path) (.str shell) (.pattern atoms) <;> rfl

theorem patternAnswer_blank {entries : List (Key × PyVal)}
    (hfn : entries.lookup (.str "_fnmatch") = none) (path : String) :
    patternAnswer path (.dict entries) = .ok none := by
  simp only [patternAnswer, PyVal.contains, hfn, bind, Except.bind]
  rfl

/-- What is no dictionary passes the search on or ends it with an error, and the
push changes nothing about that. -/
theorem patternAnswer_other {pat pat' : PyVal} (hpat : ∀ entries, pat ≠ .dict entries)
    (hstrip : strip pat = .ok pat') (path : String) :
    (patternAnswer path pat = .ok none ∧ patternAnswer path pat' = .ok none) ∨
      ∃ e, patternAnswer path pat = .error e ∧ patternAnswer path pat' = .error e := by
  cases pat with
  | dict entries => exact absurd rfl (hpat entries)
  | list items =>
      obtain ⟨items', hitems, rfl⟩ := strip_list hstrip
      simp only [patternAnswer, PyVal.contains, any_eqStr_strip hitems, bind, Except.bind]
      cases items.any fun item => item.eqStr "_fnmatch" with
      | false => exact .inl ⟨rfl, rfl⟩
      | true => exact .inr ⟨_, rfl, rfl⟩
  | str text =>
      cases hstrip
      simp only [patternAnswer, PyVal.contains, bind, Except.bind]
      split
      · exact .inr ⟨_, rfl, rfl⟩
      · exact .inl ⟨rfl, rfl⟩
  | none | bool | int | float | pattern | date =>
      cases hstrip
      exact .inr ⟨_, rfl, rfl⟩

/-- Both answers give the definition with the same variables. -/
theorem alike_map {pat pat' : PyVal} {good : Prop} (h : SameDefn pat pat' ↔ good)
    (vars : Py (Option PyVal)) :
    Alike (fun found found' => SameFound found found' ↔ good)
      (vars.map fun vars => vars.map fun vars => (pat, vars))
      (vars.map fun vars => vars.map fun vars => (pat', vars)) := by
  cases vars with
  | error e => exact .raised e
  | ok vars =>
      cases vars with
      | none => exact .missed
      | some vars => exact .found ((and_iff_left rfl).trans h)

/-- The pattern is still there after the push, and so is what the search reads of it. -/
def carries (source field : String) (pats pat : PyVal) : Bool :=
  isKept pats pat && match pat with
    | .dict entries =>
        (entries.lookup (.str source)).isSome || (entries.lookup (.str field)).isNone
    | _ => true

theorem patternAnswer_alike {rt : Runtime} {pats pat pat' : PyVal} (h : Recompiled rt pat pat')
    (hcarries : carries "socket_glob" "_fnmatch" pats pat = true) (path : String) :
    Alike (fun found found' => SameFound found found' ↔ PublicDefn compiledFields pat)
      (patternAnswer path pat) (patternAnswer path pat') := by
  rcases recompiled_cases h with ⟨entries, stripped, compiled, recompiled, rfl, rfl, htwice⟩ |
    ⟨hother, hstrip⟩
  · rcases htwice.socket with ⟨hnone, -, hfn'⟩ | ⟨-, shell, atoms, hfn, hregex, hfn', hregex'⟩
    · have hfn : compiled.lookup (.str "_fnmatch") = none := by
        simpa [carries, hnone] using (Bool.and_eq_true_iff.mp hcarries).2
      rw [patternAnswer_blank hfn, patternAnswer_blank hfn']
      exact .missed
    · rw [patternAnswer_compiled hfn hregex, patternAnswer_compiled hfn' hregex']
      exact alike_map htwice.sameDefn_iff _
  · rcases patternAnswer_other hother hstrip path with ⟨hpat, hpat'⟩ | ⟨e, hpat, hpat'⟩
    · rw [hpat, hpat']
      exact .missed
    · rw [hpat, hpat']
      exact .raised e

theorem nameAnswer_compiled {atoms : List Atom} {entries : List (Key × PyVal)}
    (hregex : entries.lookup (.str "_name_regex") = some (.pattern atoms)) (cname : String) :
    nameAnswer cname (.dict entries) = (regexMatch (.pattern atoms) cname).map fun vars =>
      vars.map fun vars => (.dict entries, vars) := by
  rw [nameAnswer, PyVal.get_dict, hregex]
  rfl

theorem nameAnswer_blank {entries : List (Key × PyVal)}
    (hregex : entries.lookup (.str "_name_regex") = none) (cname : String) :
    nameAnswer cname (.dict entries) = .ok none := by
  rw [nameAnswer, PyVal.get_dict, hregex]
  rfl

theorem nameAnswer_other {pat : PyVal} (hpat : ∀ entries, pat ≠ .dict entries) (cname : String) :
    nameAnswer cname pat = pat.noAttribute "get" := by
  rw [nameAnswer, get_other hpat]
  rfl

theorem nameAnswer_alike {rt : Runtime} {pats pat pat' : PyVal} (h : Recompiled rt pat pat')
    (hcarries : carries "console_name" "_name_regex" pats pat = true) (cname : String) :
    Alike (fun found found' => SameFound found found' ↔ PublicDefn compiledFields pat)
      (nameAnswer cname pat) (nameAnswer cname pat') := by
  rcases recompiled_cases h with ⟨entries, stripped, compiled, recompiled, rfl, rfl, htwice⟩ |
    ⟨hother, hstrip⟩
  · rcases htwice.name with ⟨hnone, -, hregex'⟩ | ⟨-, atoms, hregex, hregex'⟩
    · have hregex : compiled.lookup (.str "_name_regex") = none := by
        simpa [carries, hnone] using (Bool.and_eq_true_iff.mp hcarries).2
      rw [nameAnswer_blank hregex, nameAnswer_blank hregex']
      exact .missed
    · rw [nameAnswer_compiled hregex, nameAnswer_compiled hregex']
      exact alike_map htwice.sameDefn_iff _
  · rw [nameAnswer_other hother, nameAnswer_other (not_dict_strip hstrip hother),
      noAttribute_strip hstrip]
    exact .raised _

theorem eq_str_of_gone {pats pat : PyVal} (h : isKept pats pat = false) :
    ∃ key, pat = .str key := by
  cases pat with
  | str key => exact ⟨key, rfl⟩
  | none | bool | int | float | list | dict | pattern | date => cases pats <;> cases h

/-- A pattern that is still there is lost to a search only if what the search reads
of it stood in the file itself. -/
theorem lost_dict {source field : String} {pats : PyVal} {compiled : List (Key × PyVal)}
    (hkept : isKept pats (.dict compiled) = true)
    (hlost : carries source field pats (.dict compiled) = false) :
    compiled.lookup (.str source) = none ∧ ∃ value, compiled.lookup (.str field) = some value := by
  simp only [carries, hkept, Bool.true_and, Bool.or_eq_false_iff, Option.isSome_eq_false_iff,
    Option.isNone_iff_eq_none, Option.isNone_eq_false_iff] at hlost
  exact ⟨hlost.1, Option.isSome_iff_exists.mp hlost.2⟩

theorem carries_other {source field : String} {pats pat : PyVal}
    (hkept : isKept pats pat = true) (hpat : ∀ entries, pat ≠ .dict entries) :
    carries source field pats pat = true := by
  unfold carries
  rw [hkept]
  cases pat with
  | dict entries => exact absurd rfl (hpat entries)
  | none | bool | int | float | str | list | pattern | date => rfl

/-- A compiled glob from the file itself is no answer to any search, and is gone
after the push. -/
theorem patternAnswer_lost {rt : Runtime} {pats pat pat' : PyVal} (h : Recompiled rt pat pat')
    (hkept : isKept pats pat = true)
    (hlost : carries "socket_glob" "_fnmatch" pats pat = false) (path : String) :
    (∀ found, patternAnswer path pat ≠ .ok (some found)) ∧ patternAnswer path pat' = .ok none := by
  rcases recompiled_cases h with ⟨entries, stripped, compiled, recompiled, rfl, rfl, htwice⟩ |
    ⟨hother, -⟩
  · obtain ⟨hnone, fnmatchPat, hfn⟩ := lost_dict hkept hlost
    rcases htwice.socket with ⟨-, hregex, hfn'⟩ | ⟨hsome, -⟩
    · refine ⟨fun found hfound => ?_, patternAnswer_blank hfn' path⟩
      simp only [patternAnswer, PyVal.contains, PyVal.item, hfn, hregex, bind, Except.bind,
        Option.isSome_some, if_true] at hfound
      cases hvalue : entries.lookup (.str "_regex") with
      | none =>
          rw [hvalue] at hfound
          cases hfound
      | some regex =>
          rw [hvalue] at hfound
          dsimp only at hfound
          cases hmatch : matchGlobPattern (.str path) fnmatchPat regex with
          | error e =>
              rw [hmatch] at hfound
              cases hfound
          | ok vars =>
              rw [hmatch] at hfound
              cases vars with
              | none => cases hfound
              | some vars =>
                  obtain ⟨atoms, values, rfl, -⟩ := matchGlobPattern_spec hmatch
                  exact not_pattern_of_keyed htwice.keys hvalue atoms rfl
    · rw [hnone] at hsome
      cases hsome
  · rw [carries_other hkept hother] at hlost
    cases hlost

theorem patternAnswer_str (path key : String) (found : PyVal × PyVal) :
    patternAnswer path (.str key) ≠ .ok (some found) := by
  intro hfound
  have hkey : ∀ entries, PyVal.str key ≠ .dict entries := fun entries => nofun
  rcases patternAnswer_other hkey rfl path with
    ⟨hnone, -⟩ | ⟨e, hraised, -⟩
  · rw [hnone] at hfound
    cases hfound
  · rw [hraised] at hfound
    cases hfound

theorem nameAnswer_lost {rt : Runtime} {pats pat pat' : PyVal} (h : Recompiled rt pat pat')
    (hkept : isKept pats pat = true)
    (hlost : carries "console_name" "_name_regex" pats pat = false) (cname : String) :
    (∀ found, nameAnswer cname pat ≠ .ok (some found)) ∧ nameAnswer cname pat' = .ok none := by
  rcases recompiled_cases h with ⟨entries, stripped, compiled, recompiled, rfl, rfl, htwice⟩ |
    ⟨hother, -⟩
  · obtain ⟨hnone, value, hvalue⟩ := lost_dict hkept hlost
    rcases htwice.name with ⟨-, hregex, hregex'⟩ | ⟨hsome, -⟩
    · refine ⟨fun found hfound => ?_, nameAnswer_blank hregex' cname⟩
      have hfile := not_pattern_of_keyed htwice.keys (hregex.symm.trans hvalue)
      rw [nameAnswer, PyVal.get_dict, hvalue] at hfound
      cases value with
      | pattern atoms => exact hfile atoms rfl
      | none | bool | int | float | str | list | dict | date => cases hfound
    · rw [hnone] at hsome
      cases hsome
  · rw [carries_other hkept hother] at hlost
    cases hlost

theorem nameAnswer_str (cname key : String) (found : PyVal × PyVal) :
    nameAnswer cname (.str key) ≠ .ok (some found) := by
  rw [nameAnswer_other (by intro entries heq; cases heq)]
  exact nofun

/-- The patterns as a search finds them on both sides of the push. -/
theorem copied_of_received {rt : Runtime} {source field : String} {pats : PyVal}
    {answer : PyVal → Py (Option (PyVal × PyVal))} {items items' : List PyVal}
    (hlost : ∀ {pat pat'}, Recompiled rt pat pat' → isKept pats pat = true →
      carries source field pats pat = false →
      (∀ found, answer pat ≠ .ok (some found)) ∧ answer pat' = .ok none)
    (hstr : ∀ key found, answer (.str key) ≠ .ok (some found))
    (h : Received rt pats items items') :
    Copied answer
      (fun pat pat' => Recompiled rt pat pat' ∧ carries source field pats pat = true)
      (fun pat => carries source field pats pat = false ∧ ∀ found, answer pat ≠ .ok (some found))
      items items' := by
  induction h with
  | nil => exact .nil
  | @kept pat pat' items items' hkept hpat _ ih =>
      cases hcarries : carries source field pats pat with
      | true => exact .kept ⟨hpat, hcarries⟩ ih
      | false =>
          obtain ⟨hanswer, hmute⟩ := hlost hpat hkept hcarries
          exact .mute ⟨hcarries, hanswer⟩ hmute ih
  | @gone pat items items' hgone _ ih =>
      obtain ⟨key, rfl⟩ := eq_str_of_gone hgone
      have hlost : carries source field pats (.str key) = false := by
        unfold carries
        rw [hgone]
        rfl
      exact .gone ⟨hlost, hstr key⟩ ih

/-- The pattern that decides the search by name keeps its template through the push
and has no other private key; or it raises, and the patterns that are left raise
the same. -/
def NameKept (cfg : PyVal) (cname : String) : Prop :=
  ∀ pats items, cfg.get "console_patterns" .emptyList = .ok pats → pats.iter = .ok items →
    Survives (carries "console_name" "_name_regex" pats) (PublicDefn compiledFields)
      (nameAnswer cname) items

theorem nameAnswer_faithful (rt : Runtime) (pats : PyVal) (cname : String) :
    Faithful (carries "console_name" "_name_regex" pats) (PublicDefn compiledFields) SameFound
      (nameAnswer cname) (nameAnswer cname)
      (fun pat pat' => Recompiled rt pat pat' ∧
        carries "console_name" "_name_regex" pats pat = true)
      (fun pat => carries "console_name" "_name_regex" pats pat = false ∧
        ∀ found, nameAnswer cname pat ≠ .ok (some found)) where
  kept h := h.2
  alike h := nameAnswer_alike h.1 h.2 cname
  lost h := h.1
  clash h hanswer := absurd hanswer (h.2 _)

theorem matchConsoleName_preserved_iff {rt : Runtime} {cfg pushed : PyVal}
    (h : Pushed rt cfg pushed) (cname : String) :
    Alike SameFound (matchConsoleName cfg cname) (matchConsoleName pushed cname) ↔
      NameKept cfg cname := by
  obtain ⟨pats, pats', items, items', hpats, hpats', hitems, hitems', hreceived⟩ := h.patterns
  have hcopied := copied_of_received
    (fun hpat hkept hlost => nameAnswer_lost hpat hkept hlost cname) (nameAnswer_str cname)
    hreceived
  have hiff := (nameAnswer_faithful rt pats cname).same_iff hcopied
  simp only [matchConsoleName, hpats, hpats', hitems, hitems', bind, Except.bind,
    matchNamePattern_eq, hiff]
  constructor
  · intro hsurvives pats₁ items₁ hpats₁ hitems₁
    cases hpats₁.symm.trans hpats
    cases hitems₁.symm.trans hitems
    exact hsurvives
  · exact fun hkept => hkept pats items hpats hitems

theorem eq_str (value : PyVal) (text : String) : value.eq (.str text) = value.eqStr text := by
  cases value <;> simp [PyVal.eq, PyVal.eqStr]

/-- The answer of an explicit console, where it is a dictionary. -/
theorem consoleAnswer_dict (path : String) (name : Key) (entries : List (Key × PyVal)) :
    consoleAnswer path name (.dict entries) =
      if ((entries.lookup (.str "socket")).getD .none).eqStr path then
        .ok (some (.dict (PyVal.insertKey entries (.str "_console_name") (.ofKey name)),
          .emptyDict))
      else .ok none := by
  simp only [consoleAnswer, PyVal.get_dict, PyVal.setItem, eq_str, bind, Except.bind]
  rfl

theorem consoleAnswer_other {defn : PyVal} (hdefn : ∀ entries, defn ≠ .dict entries)
    (path : String) (name : Key) : consoleAnswer path name defn = defn.noAttribute "get" := by
  rw [consoleAnswer, get_other hdefn]
  rfl

theorem console_sameDefn_iff {entries stripped : List (Key × PyVal)}
    (hkeys : keyedEntries isString entries = true)
    (hstrip : stripEntries entries = .ok stripped) (name : PyVal) :
    SameDefn (.dict (PyVal.insertKey entries (.str "_console_name") name))
        (.dict (PyVal.insertKey stripped (.str "_console_name") name)) ↔
      PublicDefn ("_console_name" :: compiledFields) (.dict entries) := by
  rw [sameDefn_dict_iff, PublicDefn]
  have hother : ∀ key, key ≠ "_console_name" →
      ((PyVal.insertKey stripped (.str "_console_name") name).lookup (.str key) =
          (PyVal.insertKey entries (.str "_console_name") name).lookup (.str key) ↔
        stripped.lookup (.str key) = entries.lookup (.str key)) := by
    intro key hkey
    have hne : (.str key : Key) ≠ .str "_console_name" := fun heq => hkey (Key.str.inj heq)
    rw [PyVal.lookup_insertKey_of_ne hne, PyVal.lookup_insertKey_of_ne hne]
  constructor
  · intro hsame key value hkey hvalue
    rw [List.mem_cons, not_or] at hkey
    have hlookup := (hother key hkey.1).mp (hsame key hkey.2)
    exact (lookup_strip_eq_iff hkeys hstrip).mp hlookup value hvalue
  · intro hpublic key hkey
    by_cases hname : key = "_console_name"
    · subst hname
      rw [PyVal.lookup_insertKey_self, PyVal.lookup_insertKey_self]
    · refine (hother key hname).mpr ((lookup_strip_eq_iff hkeys hstrip).mpr ?_)
      exact fun value hvalue => hpublic key value (by simp [hname, hkey]) hvalue

theorem consoleAnswer_alike {defn defn' : PyVal} (hkeys : keyed isString defn = true)
    (hstrip : strip defn = .ok defn') (path : String) (name : Key) :
    Alike (fun found found' => SameFound found found' ↔
        PublicDefn ("_console_name" :: compiledFields) defn)
      (consoleAnswer path name defn) (consoleAnswer path name defn') := by
  rcases defn.dict_or_other with ⟨entries, rfl⟩ | hdefn
  · obtain ⟨stripped, hstripped, rfl⟩ := strip_dict hstrip
    rw [keyed] at hkeys
    have hsocket : ((stripped.lookup (.str "socket")).getD .none).eqStr path =
        ((entries.lookup (.str "socket")).getD .none).eqStr path := by
      have hpublic : isPrivate "socket" = false := by decide
      rcases lookup_stripEntries hpublic hstripped with ⟨hnone, hnone'⟩ |
        ⟨value, value', hvalue, hval, hvalue'⟩
      · rw [hnone, hnone']
      · rw [hvalue, hvalue']
        exact eqStr_strip hval path
    rw [consoleAnswer_dict, consoleAnswer_dict, hsocket]
    split
    · exact .found ((and_iff_left rfl).trans (console_sameDefn_iff hkeys hstripped _))
    · exact .missed
  · rw [consoleAnswer_other hdefn, consoleAnswer_other (not_dict_strip hstrip hdefn),
      noAttribute_strip hstrip]
    exact .raised _

/-- An explicit console is announced under its own name. -/
theorem consoleAnswer_name {path : String} {name : Key} {defn : PyVal} {found : PyVal × PyVal}
    (h : consoleAnswer path name defn = .ok (some found)) :
    found.1.get "_console_name" .none = .ok (.ofKey name) := by
  rcases defn.dict_or_other with ⟨entries, rfl⟩ | hdefn
  · rw [consoleAnswer_dict] at h
    split at h
    · cases h
      rw [PyVal.get_dict, PyVal.lookup_insertKey_self]
      rfl
    · cases h
  · rw [consoleAnswer_other hdefn] at h
    cases h

theorem copied_consoles {consoles consoles' : List (Key × PyVal)}
    {g : Candidate → Py (Option (PyVal × PyVal))} {Kept : Candidate → Candidate → Prop}
    {Lost : Candidate → Prop} (hkeys : keyedEntries isString consoles = true)
    (hstrip : stripEntries consoles = .ok consoles')
    (hkept : ∀ {name defn defn'}, isPublic name = true → keyed isString defn = true →
      strip defn = .ok defn' → Kept (.console name defn) (.console name defn'))
    (hlost : ∀ {key defn}, isPrivate key = true → Lost (.console (.str key) defn)) :
    Copied g Kept Lost (consoles.map fun entry => .console entry.1 entry.2)
      (consoles'.map fun entry => .console entry.1 entry.2) := by
  replace hstrip := stripped_of_ok hstrip
  induction hstrip with
  | nil => exact .nil
  | gone hkey _ ih =>
      rw [keyedEntries, Bool.and_eq_true] at hkeys
      exact .gone (hlost hkey) (ih hkeys.2)
  | @kept name _ _ _ _ hkey hvalue _ ih =>
      rw [keyedEntries, Bool.and_eq_true, Bool.and_eq_true] at hkeys
      have hpublic : isPublic (.str name) = true := by rw [isPublic, hkey]; rfl
      exact .kept (hkept hpublic hkeys.1.2 hvalue) (ih hkeys.2)

def socketCarries (pats : PyVal) : Candidate → Bool
  | .console name _ => isPublic name
  | .pattern pat => carries "socket_glob" "_fnmatch" pats pat

def PublicCandidate : Candidate → Prop
  | .console _ defn => PublicDefn ("_console_name" :: compiledFields) defn
  | .pattern pat => PublicDefn compiledFields pat

inductive KeptCandidate (rt : Runtime) (pats : PyVal) : Candidate → Candidate → Prop where
  | console {name : Key} {defn defn' : PyVal} (hname : isPublic name = true)
      (hkeys : keyed isString defn = true) (hstrip : strip defn = .ok defn') :
      KeptCandidate rt pats (.console name defn) (.console name defn')
  | pattern {pat pat' : PyVal} (h : Recompiled rt pat pat')
      (hcarries : carries "socket_glob" "_fnmatch" pats pat = true) :
      KeptCandidate rt pats (.pattern pat) (.pattern pat')

inductive LostCandidate (pats : PyVal) (path : String) : Candidate → Prop where
  | console {key : String} {defn : PyVal} (hkey : isPrivate key = true) :
      LostCandidate pats path (.console (.str key) defn)
  | pattern {pat : PyVal} (hlost : carries "socket_glob" "_fnmatch" pats pat = false)
      (hanswer : ∀ found, patternAnswer path pat ≠ .ok (some found)) :
      LostCandidate pats path (.pattern pat)

/-- A pattern that went through the push has no private key left, and so no name of
an explicit console. -/
theorem patternAnswer_name {rt : Runtime} {pat pat' : PyVal} (h : Recompiled rt pat pat')
    {path : String} {found : PyVal × PyVal} (hanswer : patternAnswer path pat' = .ok (some found)) :
    found.1.get "_console_name" .none = .ok .none := by
  rcases recompiled_cases h with ⟨entries, stripped, compiled, recompiled, rfl, rfl, htwice⟩ |
    ⟨hother, hstrip⟩
  · have hname : recompiled.lookup (.str "_console_name") = none := by
      rw [htwice.second.others "_console_name" (by decide)]
      exact lookup_private htwice.keys htwice.strip (by decide)
    rcases htwice.socket with ⟨-, -, hfn⟩ | ⟨-, shell, atoms, -, -, hfn, hregex⟩
    · rw [patternAnswer_blank hfn] at hanswer
      cases hanswer
    · rw [patternAnswer_compiled hfn hregex] at hanswer
      obtain ⟨vars, -, hvars⟩ := map_eq_ok.mp hanswer
      obtain ⟨values, -, rfl⟩ := Option.map_eq_some_iff.mp hvars
      rw [PyVal.get_dict, hname]
      rfl
  · rcases patternAnswer_other hother hstrip path with ⟨-, hnone⟩ | ⟨e, -, hraised⟩
    · rw [hnone] at hanswer
      cases hanswer
    · rw [hraised] at hanswer
      cases hanswer

/-- No other console is announced under the name of a private one. -/
theorem private_console_clash {rt : Runtime} {pats defn : PyVal} {path key : String}
    {other copy : Candidate} {found found' : PyVal × PyVal} (hkey : isPrivate key = true)
    (hfound : consoleAnswer path (.str key) defn = .ok (some found))
    (hkept : KeptCandidate rt pats other copy)
    (hfound' : socketAnswer path copy = .ok (some found')) : ¬ SameFound found found' := by
  intro hsame
  have hname := consoleAnswer_name hfound
  rw [← hsame.1 "_console_name" (by decide) .none] at hname
  cases hkept with
  | @console name defn defn' hpublic =>
      rw [consoleAnswer_name hfound', Except.ok.injEq] at hname
      cases name with
      | str name =>
          cases hname
          rw [isPublic, hkey] at hpublic
          cases hpublic
      | none | int | float | pattern | date => cases hpublic
  | pattern hpat =>
      rw [patternAnswer_name hpat hfound'] at hname
      cases hname

theorem socketAnswer_faithful (rt : Runtime) (pats : PyVal) (path : String) :
    Faithful (socketCarries pats) PublicCandidate SameFound (socketAnswer path)
      (socketAnswer path) (KeptCandidate rt pats) (LostCandidate pats path) where
  kept h := by
    cases h with
    | console hname => exact hname
    | pattern _ hcarries => exact hcarries
  alike h := by
    cases h with
    | console _ hkeys hstrip => exact consoleAnswer_alike hkeys hstrip path _
    | pattern hpat hcarries => exact patternAnswer_alike hpat hcarries path
  lost h := by
    cases h with
    | console hkey =>
        rw [socketCarries, isPublic, hkey]
        rfl
    | pattern hlost => exact hlost
  clash h hfound hkept hfound' := by
    cases h with
    | console hkey => exact private_console_clash hkey hfound hkept hfound'
    | pattern _ hanswer => exact absurd hfound (hanswer _)

/-- The console or pattern that decides the search by socket path keeps its name or
its glob through the push and has no other private key; or it raises, and what is
left raises the same. -/
def SocketKept (cfg : PyVal) (path : String) : Prop :=
  ∀ consoles pats items, cfg.get "consoles" .emptyDict = .ok (.dict consoles) →
    cfg.get "console_patterns" .emptyList = .ok pats → pats.iter = .ok items →
    Survives (socketCarries pats) PublicCandidate (socketAnswer path) (candidates consoles items)

theorem copied_candidates {rt : Runtime} {pats : PyVal} {consoles consoles' : List (Key × PyVal)}
    {items items' : List PyVal} (hkeys : keyedEntries isString consoles = true)
    (hstrip : stripEntries consoles = .ok consoles') (hreceived : Received rt pats items items')
    (path : String) :
    Copied (socketAnswer path) (KeptCandidate rt pats) (LostCandidate pats path)
      (candidates consoles items) (candidates consoles' items') := by
  have hpatterns := copied_of_received
    (fun hpat hkept hlost => patternAnswer_lost hpat hkept hlost path) (patternAnswer_str path)
    hreceived
  have hwrapped : Copied (socketAnswer path) (KeptCandidate rt pats) (LostCandidate pats path)
      (items.map .pattern) (items'.map .pattern) :=
    hpatterns.map (fun hpat => .pattern hpat.1 hpat.2) (fun hpat => .pattern hpat.1 hpat.2)
      (fun hmute => hmute)
  exact (copied_consoles hkeys hstrip .console .console).append hwrapped

theorem matchSocket_preserved_iff {rt : Runtime} {cfg pushed : PyVal} (h : Pushed rt cfg pushed)
    (path : String) :
    Alike SameFound (matchSocket cfg (.str path)) (matchSocket pushed (.str path)) ↔
      SocketKept cfg path := by
  rcases section_cases h "consoles" (by decide) (by decide) with
    ⟨consoles, consoles', hconsoles, hconsoles', hkeys, hstrip⟩ |
    ⟨value, value', hvalue, hvalue', hother, hother', hraised⟩
  · obtain ⟨pats, pats', items, items', hpats, hpats', hitems, hitems', hreceived⟩ := h.patterns
    have hiff := (socketAnswer_faithful rt pats path).same_iff
      (copied_candidates hkeys hstrip hreceived path)
    rw [matchSocket_eq hconsoles hpats hitems, matchSocket_eq hconsoles' hpats' hitems', hiff]
    constructor
    · intro hsurvives consoles₁ pats₁ items₁ hconsoles₁ hpats₁ hitems₁
      cases hconsoles₁.symm.trans hconsoles
      cases hpats₁.symm.trans hpats
      cases hitems₁.symm.trans hitems
      exact hsurvives
    · exact fun hkept => hkept consoles pats items hconsoles hpats hitems
  · constructor
    · intro _ consoles _ _ hconsoles
      exact absurd (Except.ok.inj (hvalue.symm.trans hconsoles)) (hother consoles)
    · intro _
      simp only [matchSocket, hvalue, hvalue', items_other hother, items_other hother', hraised,
        bind, Except.bind]
      exact .raised _

end Vnctlsd.PushedSearches
