import Vnctlsd.TrustedUid

/-! What a configuration, and a value looked up in it, must be like for the store's
methods to return.  A lookup ends at its first hit, so only what stands before one
matters. -/
namespace Vnctlsd.ConfigReads
open Vnctlsd.Python GlobPatterns ConsoleConfigStore Validation TrustedUid

/-- A string whose placeholders are identifiers, no two of them alike. -/
def GlobCompiles (rt : Runtime) (glob : PyVal) : Prop :=
  ∃ s, glob = .str s ∧ ∀ atoms, atoms = atomsFrom s.toList.length s.toList →
    (∀ name ∈ groupNames atoms, rt.isIdentifier name = true) ∧ (groupNames atoms).Nodup

theorem compileGlobPattern_returns_iff {rt : Runtime} {glob : PyVal} :
    (∃ found, compileGlobPattern rt glob = .ok found) ↔ GlobCompiles rt glob := by
  constructor
  · rintro ⟨⟨shell, atoms⟩, h⟩
    obtain ⟨s, rfl, rfl, hnames⟩ := compileGlobPattern_eq_ok h
    exact ⟨s, rfl, fun atoms hatoms => hatoms ▸ hnames⟩
  · rintro ⟨s, rfl, h⟩
    obtain ⟨hnames, hnodup⟩ := h _ rfl
    have hregex : compileRegex rt (atomsFrom s.toList.length s.toList) =
        .ok (atomsFrom s.toList.length s.toList) := by
      have hall : (groupNames (atomsFrom s.toList.length s.toList)).all rt.isIdentifier = true :=
        List.all_eq_true.mpr hnames
      rw [compileRegex, hall, if_neg (by decide), if_pos hnodup]
    exact ⟨_, bind_eq_ok.mpr ⟨_, hregex, rfl⟩⟩

theorem compileField_returns_iff {rt : Runtime} {source : String}
    (file : List (Key × PyVal) → String × List Atom → List (Key × PyVal))
    {entries : List (Key × PyVal)} :
    (∃ compiled, compileField rt source file entries = .ok compiled) ↔
      ∀ template, entries.lookup (.str source) = some template → GlobCompiles rt template := by
  simp only [← compileGlobPattern_returns_iff]
  refine ⟨fun ⟨compiled, h⟩ template hlookup => ?_, compileField_returns file⟩
  rcases compileField_eq_ok.mp h with ⟨hnone, -⟩ | ⟨template', found, hsome, hfound, -⟩
  · rw [hnone] at hlookup
    cases hlookup
  · rw [hsome] at hlookup
    cases hlookup
    exact ⟨found, hfound⟩

/-- A pattern's templates compile; a value that is no dictionary must not seem to
have any. -/
def PatternCompiles (rt : Runtime) : PyVal → Prop
  | .dict entries => ∀ key ∈ ["socket_glob", "console_name"], ∀ template,
      entries.lookup (.str key) = some template → GlobCompiles rt template
  | other => ∀ key ∈ ["socket_glob", "console_name"], other.contains key = .ok false

theorem compiles_of_other {rt : Runtime} {pat : PyVal} (h : ∀ entries, pat ≠ .dict entries) :
    (∃ compiled, precompilePattern rt pat = .ok compiled) ↔
      pat.contains "socket_glob" = .ok false ∧ pat.contains "console_name" = .ok false := by
  simp only [precompilePattern_other h]
  exact ⟨fun ⟨_, hsocket, hname, _⟩ => ⟨hsocket, hname⟩,
    fun ⟨hsocket, hname⟩ => ⟨pat, hsocket, hname, rfl⟩⟩

theorem precompilePattern_returns_iff {rt : Runtime} {pat : PyVal} :
    (∃ compiled, precompilePattern rt pat = .ok compiled) ↔ PatternCompiles rt pat := by
  cases pat with
  | dict entries =>
      simp only [PatternCompiles, List.forall_mem_cons, List.not_mem_nil, false_implies,
        implies_true, and_true, ← compileField_returns_iff fileSocket]
      rw [precompilePattern_dict]
      have hsame : ∀ middle, compileField rt "socket_glob" fileSocket entries = .ok middle →
          middle.lookup (.str "console_name") = entries.lookup (.str "console_name") := by
        intro middle hmiddle
        rcases compileField_eq_ok.mp hmiddle with ⟨-, rfl⟩ | ⟨glob, found, -, -, rfl⟩
        · rfl
        · exact lookup_fileSocket_of_ne (by decide) (by decide) entries found
      constructor
      · rintro ⟨compiled, h⟩
        obtain ⟨found, hfound, -⟩ := map_eq_ok.mp h
        obtain ⟨middle, hmiddle, hfound⟩ := bind_eq_ok.mp hfound
        refine ⟨⟨middle, hmiddle⟩, ?_⟩
        rw [compileField_returns_iff, ← hsame middle hmiddle]
        exact (compileField_returns_iff fileName).mp ⟨found, hfound⟩
      · rintro ⟨⟨middle, hmiddle⟩, hname⟩
        rw [compileField_returns_iff, ← hsame middle hmiddle, ← compileField_returns_iff fileName]
          at hname
        obtain ⟨found, hfound⟩ := hname
        exact ⟨_, map_eq_ok.mpr ⟨found, bind_eq_ok.mpr ⟨middle, hmiddle, hfound⟩, rfl⟩⟩
  | none | bool | int | float | str | list | pattern | date =>
      exact (compiles_of_other fun _ h => by cases h).trans (by simp [PatternCompiles])

/-- The value that a CONFIG_UPDATE or a file carries can be put in force. -/
def Compiles (rt : Runtime) (data : PyVal) : Prop :=
  ∃ entries, data = .dict entries ∧ ∀ pats, entries.lookup (.str "console_patterns") = some pats →
    ∃ items, pats.iter = .ok items ∧ ∀ item ∈ items, PatternCompiles rt item

theorem compileSection_returns_iff {rt : Runtime} {pats : PyVal} :
    (∃ found, compileSection rt (some pats) = .ok found) ↔
      ∃ items, pats.iter = .ok items ∧ ∀ item ∈ items, PatternCompiles rt item := by
  simp only [← precompilePattern_returns_iff, ← mapM_returns_iff]
  cases pats with
  | list items =>
      simp only [compileSection, PyVal.iter, Except.ok.injEq, exists_eq_left', map_eq_ok]
      constructor
      · rintro ⟨_, results, h, -⟩
        exact ⟨results, h⟩
      · rintro ⟨results, h⟩
        exact ⟨_, results, h, rfl⟩
  | none | bool | int | float | str | dict | pattern | date =>
      simp only [compileSection, bind_eq_ok]
      constructor
      · rintro ⟨_, items, hitems, results, hresults, -⟩
        exact ⟨items, hitems, results, hresults⟩
      · rintro ⟨items, hitems, results, hresults⟩
        exact ⟨_, items, hitems, results, hresults, rfl⟩

theorem update_returns_iff {rt : Runtime} {data : PyVal} :
    (∃ cfg, update rt data = .ok cfg) ↔ Compiles rt data := by
  constructor
  · rintro ⟨cfg, h⟩
    obtain ⟨entries, found, rfl, hfound, -⟩ := precompilePatterns_eq_ok h
    refine ⟨entries, rfl, fun pats hpats => ?_⟩
    rw [hpats] at hfound
    exact compileSection_returns_iff.mp ⟨found, hfound⟩
  · rintro ⟨entries, rfl, h⟩
    have hsection : ∃ found,
        compileSection rt (entries.lookup (.str "console_patterns")) = .ok found := by
      cases hpats : entries.lookup (.str "console_patterns") with
      | none => exact ⟨none, rfl⟩
      | some pats => exact compileSection_returns_iff.mpr (h pats hpats)
    obtain ⟨found, hfound⟩ := hsection
    rw [update, precompilePatterns_dict, hfound]
    exact ⟨_, rfl⟩

/-- The definitions up to the first one with this socket are dictionaries. -/
def ConsolesRead (path : PyVal) : List (Key × PyVal) → Prop
  | [] => True
  | entry :: rest => ∃ fields, entry.2 = .dict fields ∧
      (((fields.lookup (.str "socket")).getD .none).eq path = false → ConsolesRead path rest)

theorem matchExplicitSocket_returns_iff {path : PyVal} {consoles : List (Key × PyVal)} :
    (∃ found, matchExplicitSocket path consoles = .ok found) ↔ ConsolesRead path consoles := by
  induction consoles with
  | nil => exact iff_of_true ⟨_, rfl⟩ trivial
  | cons entry rest ih =>
      rw [ConsolesRead, ← ih]
      constructor
      · rintro ⟨found, h⟩
        obtain ⟨socket, hsocket, h⟩ := bind_eq_ok.mp h
        obtain ⟨fields, hfields⟩ := PyVal.eq_dict_of_get_ok hsocket
        refine ⟨fields, hfields, fun hdiffers => ⟨found, ?_⟩⟩
        rw [hfields, PyVal.get_dict] at hsocket
        cases hsocket
        simpa [hdiffers] using h
      · rintro ⟨fields, hfields, h⟩
        have hsocket : entry.2.get "socket" .none =
            .ok ((fields.lookup (.str "socket")).getD .none) := by rw [hfields, PyVal.get_dict]
        have hset : ∃ defn, entry.2.setItem "_console_name" (.ofKey entry.1) = .ok defn := by
          rw [hfields]
          exact ⟨_, rfl⟩
        cases hsame : ((fields.lookup (.str "socket")).getD .none).eq path with
        | true =>
            obtain ⟨defn, hdefn⟩ := hset
            simp [matchExplicitSocket, hsocket, hsame, hdefn, bind, Except.bind, pure, Except.pure]
        | false =>
            simpa [matchExplicitSocket, hsocket, hsame, bind, Except.bind] using h hsame

/-- The path and the glob are strings, and a path that gets past the glob meets a
compiled expression. -/
def GlobReads (path glob regex : PyVal) : Prop :=
  ∃ text pattern, path = .str text ∧ glob = .str pattern ∧
    (Fnmatch.fnmatch text pattern = true → ∃ atoms, regex = .pattern atoms)

theorem matchGlobPattern_returns_iff {path glob regex : PyVal} :
    (∃ vars, matchGlobPattern path glob regex = .ok vars) ↔ GlobReads path glob regex := by
  constructor
  · rintro ⟨vars, h⟩
    unfold matchGlobPattern at h
    split at h
    · rename_i text pattern
      refine ⟨text, pattern, rfl, rfl, fun hpasses => ?_⟩
      rw [if_pos hpasses] at h
      unfold regexMatch at h
      split at h
      · exact ⟨_, rfl⟩
      · cases h
    · cases h
    · cases h
  · rintro ⟨text, pattern, rfl, rfl, h⟩
    rw [matchGlobPattern]
    split
    · obtain ⟨atoms, rfl⟩ := h ‹_›
      exact ⟨_, rfl⟩
    · exact ⟨_, rfl⟩

theorem contains_of_item {value found : PyVal} {key : String} (h : value.item key = .ok found) :
    value.contains key = .ok true := by
  unfold PyVal.item at h
  split at h
  · rename_i entries
    split at h
    · rename_i found' hlookup
      rw [PyVal.contains, hlookup]
      rfl
    · cases h
  · cases h
  · cases h
  · cases h

/-- Of a pattern that has a socket glob, and that the search gets to, the glob can be
matched. -/
def PatternsRead (path : PyVal) : List PyVal → Prop
  | [] => True
  | pat :: rest => (pat.contains "_fnmatch" = .ok false ∧ PatternsRead path rest) ∨
      ∃ glob regex, pat.item "_fnmatch" = .ok glob ∧ pat.item "_regex" = .ok regex ∧
        GlobReads path glob regex ∧
        (matchGlobPattern path glob regex = .ok none → PatternsRead path rest)

theorem matchSocketPattern_returns_iff {path : PyVal} {pats : List PyVal} :
    (∃ found, matchSocketPattern path pats = .ok found) ↔ PatternsRead path pats := by
  induction pats with
  | nil => exact iff_of_true ⟨_, rfl⟩ trivial
  | cons pat rest ih =>
      rw [PatternsRead, ← ih]
      constructor
      · rintro ⟨found, h⟩
        obtain ⟨present, hpresent, h⟩ := bind_eq_ok.mp h
        cases present with
        | false => exact .inl ⟨hpresent, found, h⟩
        | true =>
            obtain ⟨glob, hglob, h⟩ := bind_eq_ok.mp h
            obtain ⟨regex, hregex, h⟩ := bind_eq_ok.mp h
            obtain ⟨vars, hvars, h⟩ := bind_eq_ok.mp h
            refine .inr ⟨glob, regex, hglob, hregex,
              matchGlobPattern_returns_iff.mp ⟨vars, hvars⟩, fun hnone => ⟨found, ?_⟩⟩
            rw [hnone] at hvars
            cases hvars
            exact h
      · rintro (⟨habsent, found, h⟩ | ⟨glob, regex, hglob, hregex, hreads, h⟩)
        · exact ⟨found, bind_eq_ok.mpr ⟨false, habsent, h⟩⟩
        · obtain ⟨vars, hvars⟩ := matchGlobPattern_returns_iff.mpr hreads
          have hstep : matchSocketPattern path (pat :: rest) = match vars with
              | some vars => .ok (some (pat, vars))
              | none => matchSocketPattern path rest := by
            simp only [matchSocketPattern, contains_of_item hglob, hglob, hregex, hvars, bind,
              Except.bind, if_true]
            cases vars <;> rfl
          rw [hstep]
          cases vars with
          | some vars => exact ⟨_, rfl⟩
          | none => exact h hvars

/-- A search for the path ends, be it with a hit or without. -/
def SearchReads (cfg path : PyVal) : Prop :=
  ∃ consoles, cfg.get "consoles" .emptyDict = .ok (.dict consoles) ∧ ConsolesRead path consoles ∧
    (matchExplicitSocket path consoles = .ok none →
      ∃ pats, (cfg.get "console_patterns" .emptyList >>= PyVal.iter) = .ok pats ∧
        PatternsRead path pats)

theorem matchSocket_returns_iff {cfg path : PyVal} :
    (∃ found, matchSocket cfg path = .ok found) ↔ SearchReads cfg path := by
  constructor
  · rintro ⟨found, h⟩
    obtain ⟨consoles, hconsoles, h⟩ := bind_eq_ok.mp h
    obtain ⟨entries, hentries, h⟩ := bind_eq_ok.mp h
    obtain ⟨explicit, hexplicit, h⟩ := bind_eq_ok.mp h
    obtain rfl : consoles = .dict entries := by
      cases consoles with
      | dict => cases hentries; rfl
      | none | bool | int | float | str | list | pattern | date => cases hentries
    refine ⟨entries, hconsoles, matchExplicitSocket_returns_iff.mp ⟨explicit, hexplicit⟩,
      fun hmissed => ?_⟩
    rw [hmissed] at hexplicit
    cases hexplicit
    obtain ⟨pats, hpats, h⟩ := bind_eq_ok.mp h
    obtain ⟨items, hitems, h⟩ := bind_eq_ok.mp h
    exact ⟨items, bind_eq_ok.mpr ⟨pats, hpats, hitems⟩,
      matchSocketPattern_returns_iff.mp ⟨found, h⟩⟩
  · rintro ⟨consoles, hconsoles, hreads, hpatterns⟩
    obtain ⟨explicit, hexplicit⟩ := matchExplicitSocket_returns_iff.mpr hreads
    cases explicit with
    | some defn =>
        exact ⟨some (defn, .emptyDict), bind_eq_ok.mpr ⟨_, hconsoles, bind_eq_ok.mpr ⟨_, rfl,
          bind_eq_ok.mpr ⟨_, hexplicit, rfl⟩⟩⟩⟩
    | none =>
        obtain ⟨items, hitems, hreads⟩ := hpatterns hexplicit
        obtain ⟨pats, hpats, hitems⟩ := bind_eq_ok.mp hitems
        obtain ⟨found, hfound⟩ := matchSocketPattern_returns_iff.mpr hreads
        exact ⟨found, bind_eq_ok.mpr ⟨_, hconsoles, bind_eq_ok.mpr ⟨_, rfl,
          bind_eq_ok.mpr ⟨_, hexplicit, bind_eq_ok.mpr ⟨pats, hpats,
            bind_eq_ok.mpr ⟨items, hitems, hfound⟩⟩⟩⟩⟩⟩

/-- The owner that the setting in force asks for can be worked out. -/
def OwnerReads (rt : Runtime) (cfg defn vars : PyVal) : Prop :=
  (∃ value, settingInForce cfg defn = .ok value ∧ value.truthy = false) ∨
    ∃ name, ExpandsTo rt cfg defn vars name ∧ '\x00' ∉ name.toList

theorem resolveTrustedUid_returns_iff {rt : Runtime} {passwd : Passwd} {cfg defn vars : PyVal} :
    (∃ uid, resolveTrustedUid rt passwd cfg defn vars = .ok uid) ↔
      OwnerReads rt cfg defn vars := by
  simp only [resolveTrustedUid_eq_ok_iff, OwnerReads]
  constructor
  · rintro ⟨uid, ⟨hblank, -⟩ | ⟨name, hname, hnul, -⟩⟩
    · exact .inl hblank
    · exact .inr ⟨name, hname, hnul⟩
  · rintro (hblank | ⟨name, hname, hnul⟩)
    · exact ⟨none, .inl ⟨hblank, rfl⟩⟩
    · exact ⟨_, .inr ⟨name, hname, hnul, rfl⟩⟩

/-- What `os.lstat` takes, or refuses with an `OSError`. -/
def PathReads (path : PyVal) : Prop := ∃ text, path = .str text ∧ '\x00' ∉ text.toList

theorem validateSocket_returns_iff {fs : FileSystem} {path : PyVal} {trustedUid : Option Int} :
    (∃ verdict, validateSocket fs path trustedUid = .ok verdict) ↔ PathReads path := by
  have hlstat : (∃ found, lstat fs path = .ok found) ↔ PathReads path := by
    cases path with
    | str text => by_cases hnul : '\x00' ∈ text.toList <;> simp [lstat, PathReads, hnul, raise]
    | none | bool | int | float | list | dict | pattern | date => simp [lstat, PathReads, raise]
  rw [← hlstat]
  constructor
  · rintro ⟨verdict, h⟩
    obtain ⟨found, hfound, -⟩ := bind_eq_ok.mp h
    exact ⟨found, hfound⟩
  · rintro ⟨found, hfound⟩
    rw [validateSocket, hfound]
    cases found <;> exact ⟨_, rfl⟩

end Vnctlsd.ConfigReads
