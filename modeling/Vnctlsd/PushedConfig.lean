import Vnctlsd.ConfigPush

/-! A store and the one that `update` makes of its `get_raw`: how the two correspond,
section by section and pattern by pattern. -/
namespace Vnctlsd.PushedConfig
open Vnctlsd.Python GlobPatterns ConsoleConfigStore ConfigPush

/-- A pattern that went through the push: it was compiled, stripped and compiled again. -/
def Recompiled (rt : Runtime) (pat pat' : PyVal) : Prop :=
  ∃ raw raw', keyed isString raw = true ∧ precompilePattern rt raw = .ok pat ∧
    strip raw = .ok raw' ∧ precompilePattern rt raw' = .ok pat'

/-- Where the patterns are a dictionary, its keys stand for them; private ones are
stripped. -/
def isKept (pats item : PyVal) : Bool :=
  match pats, item with
  | .dict _, .str key => !isPrivate key
  | _, _ => true

/-- The items of the patterns on both sides of the push. -/
inductive Received (rt : Runtime) (pats : PyVal) : List PyVal → List PyVal → Prop where
  | nil : Received rt pats [] []
  | kept {item item' : PyVal} {items items' : List PyVal} (hkept : isKept pats item = true)
      (h : Recompiled rt item item') (rest : Received rt pats items items') :
      Received rt pats (item :: items) (item' :: items')
  | gone {item : PyVal} {items items' : List PyVal} (hgone : isKept pats item = false)
      (rest : Received rt pats items items') : Received rt pats (item :: items) items'

theorem keyed_of_lookup {test : Key → Bool} {entries : List (Key × PyVal)}
    (h : keyedEntries test entries = true) {key : Key} {value : PyVal}
    (hlookup : entries.lookup key = some value) : test key = true ∧ keyed test value = true := by
  induction entries with
  | nil => cases hlookup
  | cons entry rest ih =>
      obtain ⟨entryKey, entryValue⟩ := entry
      rw [keyedEntries, Bool.and_eq_true, Bool.and_eq_true] at h
      rw [List.lookup_cons] at hlookup
      split at hlookup
      · rename_i heq
        obtain rfl : key = entryKey := eq_of_beq heq
        cases hlookup
        exact h.1
      · exact ih h.2 hlookup

theorem received_list {rt : Runtime} {pats : List PyVal} {items raws raws' items' : List PyVal}
    (hkeys : keyedItems isString raws = true)
    (hitems : raws.mapM (precompilePattern rt) = .ok items) (hstrip : stripItems raws = .ok raws')
    (hitems' : raws'.mapM (precompilePattern rt) = .ok items') :
    Received rt (.list pats) items items' := by
  induction raws generalizing items raws' items' with
  | nil =>
      cases hitems
      cases hstrip
      cases hitems'
      exact .nil
  | cons raw rest ih =>
      rw [keyedItems, Bool.and_eq_true] at hkeys
      obtain ⟨raw', hraw', hstrip⟩ := bind_eq_ok.mp hstrip
      obtain ⟨rest', hrest', hstrip⟩ := bind_eq_ok.mp hstrip
      cases hstrip
      rw [List.mapM_cons] at hitems hitems'
      obtain ⟨item, hitem, hitems⟩ := bind_eq_ok.mp hitems
      obtain ⟨others, hothers, hitems⟩ := bind_eq_ok.mp hitems
      cases hitems
      obtain ⟨item', hitem', hitems'⟩ := bind_eq_ok.mp hitems'
      obtain ⟨others', hothers', hitems'⟩ := bind_eq_ok.mp hitems'
      cases hitems'
      have hkept : isKept (.list pats) item = true := by cases item <;> rfl
      have hrest := ih hkeys.2 hothers hrest' hothers'
      exact .kept hkept ⟨raw, raw', hkeys.1, hitem, hraw', hitem'⟩ hrest

/-- A string passes the compilation as it is, or not at all. -/
theorem recompiled_str {rt : Runtime} {text : String} {result : PyVal}
    (h : precompilePattern rt (.str text) = .ok result) :
    Recompiled rt (.str text) (.str text) := by
  obtain ⟨-, -, rfl⟩ := (precompilePattern_other (by intro entries heq; cases heq)).mp h
  exact ⟨.str text, .str text, rfl, h, rfl, h⟩

theorem received_dict {rt : Runtime} {pats : List (Key × PyVal)}
    {entries stripped : List (Key × PyVal)} {results : List PyVal}
    (hload : (entries.map fun entry => PyVal.ofKey entry.1).mapM (precompilePattern rt) =
      .ok results)
    (hstrip : stripEntries entries = .ok stripped) :
    Received rt (.dict pats) (entries.map fun entry => PyVal.ofKey entry.1)
      (stripped.map fun entry => PyVal.ofKey entry.1) := by
  replace hstrip := stripped_of_ok hstrip
  induction hstrip generalizing results with
  | nil => exact .nil
  | @gone name _ _ _ hkey _ ih =>
      rw [List.map_cons, List.mapM_cons] at hload
      obtain ⟨result, -, hload⟩ := bind_eq_ok.mp hload
      obtain ⟨others, hothers, -⟩ := bind_eq_ok.mp hload
      have hgone : isKept (.dict pats) (.str name) = false := by rw [isKept, hkey]; rfl
      exact .gone hgone (ih hothers)
  | @kept name _ _ _ _ hkey _ _ ih =>
      rw [List.map_cons, List.mapM_cons] at hload
      obtain ⟨result, hresult, hload⟩ := bind_eq_ok.mp hload
      obtain ⟨others, hothers, -⟩ := bind_eq_ok.mp hload
      have hkept : isKept (.dict pats) (.str name) = true := by rw [isKept, hkey]; rfl
      exact .kept hkept (recompiled_str hresult) (ih hothers)

theorem received_str {rt : Runtime} {pats : String} {texts : List String} {results : List PyVal}
    (hload : (texts.map PyVal.str).mapM (precompilePattern rt) = .ok results) :
    Received rt (.str pats) (texts.map PyVal.str) (texts.map PyVal.str) := by
  induction texts generalizing results with
  | nil => exact .nil
  | cons text rest ih =>
      rw [List.map_cons, List.mapM_cons] at hload
      obtain ⟨result, hresult, hload⟩ := bind_eq_ok.mp hload
      obtain ⟨others, hothers, -⟩ := bind_eq_ok.mp hload
      exact .kept rfl (recompiled_str hresult) (ih hothers)

/-- A store and the one that a push makes of it. -/
structure Pushed (rt : Runtime) (cfg pushed : PyVal) : Prop where
  section_kept : ∀ name default, isPrivate name = false → name ≠ "console_patterns" →
    keyed isPublic default = true → ∃ value value', cfg.get name default = .ok value ∧
      pushed.get name default = .ok value' ∧ strip value = .ok value' ∧
      keyed isString value = true
  patterns : ∃ pats pats' items items', cfg.get "console_patterns" .emptyList = .ok pats ∧
    pushed.get "console_patterns" .emptyList = .ok pats' ∧ pats.iter = .ok items ∧
    pats'.iter = .ok items' ∧ Received rt pats items items'

/-- The patterns of both stores, where the file has some. -/
theorem received_of_compile {rt : Runtime} {raws raws' : PyVal} {pats pats' : Option PyVal}
    (hkeys : keyed isString raws = true) (hpats : compileSection rt (some raws) = .ok pats)
    (hstrip : strip raws = .ok raws') (hpats' : compileSection rt (some raws') = .ok pats') :
    ∃ found found' items items', pats = some found ∧ pats' = some found' ∧
      found.iter = .ok items ∧ found'.iter = .ok items' ∧ Received rt found items items' := by
  cases raws with
  | list raws =>
      rw [keyed] at hkeys
      obtain ⟨items, hitems, rfl⟩ := map_eq_ok.mp hpats
      obtain ⟨raws', hraws', rfl⟩ := strip_list hstrip
      obtain ⟨items', hitems', rfl⟩ := map_eq_ok.mp hpats'
      exact ⟨_, _, items, items', rfl, rfl, rfl, rfl,
        received_list hkeys hitems hraws' hitems'⟩
  | dict entries =>
      obtain ⟨stripped, hstripped, rfl⟩ := strip_dict hstrip
      obtain ⟨rfl, items, results, hitems, hresults⟩ :=
        compileSection_other (by intro items heq; cases heq) hpats
      obtain ⟨rfl, -⟩ := compileSection_other (by intro items heq; cases heq) hpats'
      cases hitems
      exact ⟨_, _, _, _, rfl, rfl, rfl, rfl, received_dict hresults hstripped⟩
  | str text =>
      cases hstrip
      obtain ⟨rfl, items, results, hitems, hresults⟩ :=
        compileSection_other (by intro items heq; cases heq) hpats
      obtain ⟨rfl, -⟩ := compileSection_other (by intro items heq; cases heq) hpats'
      have htexts : items = (text.toList.map fun c => String.ofList [c]).map PyVal.str := by
        rw [List.map_map]
        exact (Except.ok.inj hitems).symm
      subst htexts
      exact ⟨_, _, _, _, rfl, rfl, hitems, hitems, received_str hresults⟩
  | none | bool | int | float | pattern | date => cases hpats

theorem pushed_of_update {rt : Runtime} {data cfg raw pushed : PyVal}
    (hkeys : keyed isString data = true) (hload : precompilePatterns rt data = .ok cfg)
    (hstrip : strip data = .ok raw) (hpush : update rt raw = .ok pushed) :
    Pushed rt cfg pushed := by
  obtain ⟨entries, compiled, loaded⟩ := precompilePatterns_spec hload
  obtain ⟨stripped, recompiled, received⟩ := precompilePatterns_spec hpush
  obtain rfl := loaded.file
  obtain rfl := received.file
  obtain rfl := loaded.store
  obtain rfl := received.store
  obtain ⟨_, hstripped, heq⟩ := strip_dict hstrip
  cases heq
  rw [keyed] at hkeys
  constructor
  · intro name default hname hne hdefault
    have hkey : (.str name : Key) ≠ .str "console_patterns" := fun heq => hne (Key.str.inj heq)
    simp only [PyVal.get_dict, loaded.others _ hkey, received.others _ hkey]
    rcases lookup_stripEntries hname hstripped with ⟨hnone, hnone'⟩ |
      ⟨value, value', hvalue, hval, hvalue'⟩
    · rw [hnone, hnone']
      exact ⟨default, default, rfl, rfl, strip_of_public hdefault, strings_of_public hdefault⟩
    · rw [hvalue, hvalue']
      exact ⟨value, value', rfl, rfl, hval, (keyed_of_lookup hkeys hvalue).2⟩
  · have hpatterns : isPrivate "console_patterns" = false := by decide
    have hcompiled := loaded.patterns
    have hrecompiled := received.patterns
    simp only [PyVal.get_dict]
    rcases lookup_stripEntries hpatterns hstripped with ⟨hnone, hnone'⟩ |
      ⟨raws, raws', hraws, hval, hraws'⟩
    · rw [hnone] at hcompiled
      rw [hnone'] at hrecompiled
      rw [← Except.ok.inj hcompiled, ← Except.ok.inj hrecompiled]
      exact ⟨_, _, [], [], rfl, rfl, rfl, rfl, .nil⟩
    · rw [hraws] at hcompiled
      rw [hraws'] at hrecompiled
      obtain ⟨pats, pats', items, items', hpats, hpats', hitems, hitems', h⟩ :=
        received_of_compile (keyed_of_lookup hkeys hraws).2 hcompiled hval hrecompiled
      rw [hpats, hpats']
      exact ⟨pats, pats', items, items', rfl, rfl, hitems, hitems', h⟩

/-- Equal but for the compiled fields. -/
def SameDefn (defn defn' : PyVal) : Prop :=
  ∀ key, key ∉ compiledFields → ∀ default, defn'.get key default = defn.get key default

/-- No key at any depth is private, the exempt ones at the top apart. -/
def PublicDefn (exempt : List String) : PyVal → Prop
  | .dict entries => ∀ key value, key ∉ exempt → entries.lookup (.str key) = some value →
      isPrivate key = false ∧ keyed isPublic value = true
  | _ => True

/-- A definition and the captured variables, up to the compiled fields. -/
def SameFound (found found' : PyVal × PyVal) : Prop :=
  SameDefn found.1 found'.1 ∧ found'.2 = found.2

theorem eq_of_getD_eq {left right : Option PyVal}
    (h : ∀ default, left.getD default = right.getD default) : left = right := by
  cases left with
  | none =>
      cases right with
      | none => rfl
      | some value =>
          obtain rfl : PyVal.none = value := h .none
          cases h (.bool true)
  | some value =>
      cases right with
      | none =>
          obtain rfl : value = .none := h .none
          cases h (.bool true)
      | some other => exact congrArg some (h .none)

theorem sameDefn_dict_iff {entries entries' : List (Key × PyVal)} :
    SameDefn (.dict entries) (.dict entries') ↔
      ∀ key, key ∉ compiledFields → entries'.lookup (.str key) = entries.lookup (.str key) := by
  constructor
  · intro h key hkey
    exact eq_of_getD_eq fun default => Except.ok.inj (h key hkey default)
  · intro h key hkey default
    rw [PyVal.get_dict, PyVal.get_dict, h key hkey]

theorem lookup_private {entries stripped : List (Key × PyVal)} {key : String}
    (hkeys : keyedEntries isString entries = true) (hstrip : stripEntries entries = .ok stripped)
    (hkey : isPrivate key = true) : stripped.lookup (.str key) = none := by
  obtain ⟨found, hfound, hpublic⟩ := stripEntries_of_strings hkeys
  obtain rfl := Except.ok.inj (hstrip.symm.trans hfound)
  cases hlookup : stripped.lookup (.str key) with
  | none => rfl
  | some value =>
      have htest := (keyed_of_lookup hpublic hlookup).1
      rw [isPublic, hkey] at htest
      cases htest

theorem lookup_strip_eq_iff {entries stripped : List (Key × PyVal)} {key : String}
    (hkeys : keyedEntries isString entries = true)
    (hstrip : stripEntries entries = .ok stripped) :
    stripped.lookup (.str key) = entries.lookup (.str key) ↔
      ∀ value, entries.lookup (.str key) = some value →
        isPrivate key = false ∧ keyed isPublic value = true := by
  cases hkey : isPrivate key with
  | true =>
      rw [lookup_private hkeys hstrip hkey]
      cases entries.lookup (.str key) <;> simp
  | false =>
      rcases lookup_stripEntries hkey hstrip with ⟨hnone, hnone'⟩ |
        ⟨value, value', hvalue, hval, hvalue'⟩
      · simp [hnone, hnone']
      · have hself := strip_eq_self_iff (keyed_of_lookup hkeys hvalue).2
        rw [hvalue, hvalue', Option.some.injEq]
        rw [hval, Except.ok.injEq] at hself
        simpa using hself

/-- A dictionary among the patterns, with what it was before either compilation. -/
structure CompiledTwice (rt : Runtime)
    (entries stripped compiled recompiled : List (Key × PyVal)) : Prop where
  keys : keyedEntries isString entries = true
  strip : stripEntries entries = .ok stripped
  first : CompiledPattern rt entries compiled
  second : CompiledPattern rt stripped recompiled

theorem typeName_strip {value value' : PyVal} (h : strip value = .ok value') :
    value'.typeName = value.typeName := by
  cases value with
  | list items =>
      obtain ⟨items', -, rfl⟩ := strip_list h
      rfl
  | dict entries =>
      obtain ⟨entries', -, rfl⟩ := strip_dict h
      rfl
  | none | bool | int | float | str | pattern | date =>
      cases h
      rfl

theorem not_dict_strip {value value' : PyVal} (h : strip value = .ok value')
    (hvalue : ∀ entries, value ≠ .dict entries) (entries : List (Key × PyVal)) :
    value' ≠ .dict entries := by
  rintro rfl
  have htype := typeName_strip h
  cases value with
  | dict fields => exact hvalue fields rfl
  | none | bool | int | float | str | list | pattern => simp [PyVal.typeName] at htype
  | date cls text => cases cls <;> simp [PyVal.typeName, DateClass.typeName] at htype

theorem recompiled_cases {rt : Runtime} {pat pat' : PyVal} (h : Recompiled rt pat pat') :
    (∃ entries stripped compiled recompiled, pat = .dict compiled ∧ pat' = .dict recompiled ∧
      CompiledTwice rt entries stripped compiled recompiled) ∨
      (∀ entries, pat ≠ .dict entries) ∧ strip pat = .ok pat' := by
  obtain ⟨raw, raw', hkeys, hpat, hstrip, hpat'⟩ := h
  rcases raw.dict_or_other with ⟨entries, rfl⟩ | hraw
  · obtain ⟨compiled, rfl, hfirst⟩ := precompilePattern_spec hpat
    obtain ⟨stripped, hstripped, rfl⟩ := strip_dict hstrip
    obtain ⟨recompiled, rfl, hsecond⟩ := precompilePattern_spec hpat'
    rw [keyed] at hkeys
    exact .inl ⟨entries, stripped, compiled, recompiled, rfl, rfl, hkeys, hstripped, hfirst,
      hsecond⟩
  · obtain ⟨-, -, rfl⟩ := (precompilePattern_other hraw).mp hpat
    obtain ⟨-, -, rfl⟩ := (precompilePattern_other (not_dict_strip hstrip hraw)).mp hpat'
    exact .inr ⟨hraw, hstrip⟩

section

variable {rt : Runtime} {entries stripped compiled recompiled : List (Key × PyVal)}

theorem CompiledTwice.sameDefn_iff (h : CompiledTwice rt entries stripped compiled recompiled) :
    SameDefn (.dict compiled) (.dict recompiled) ↔ PublicDefn compiledFields (.dict compiled) := by
  rw [sameDefn_dict_iff, PublicDefn]
  constructor
  · intro hsame key value hkey hvalue
    have hlookup := hsame key hkey
    rw [h.first.others key hkey, h.second.others key hkey] at hlookup
    rw [h.first.others key hkey] at hvalue
    exact (lookup_strip_eq_iff h.keys h.strip).mp hlookup value hvalue
  · intro hpublic key hkey
    rw [h.first.others key hkey, h.second.others key hkey]
    refine (lookup_strip_eq_iff h.keys h.strip).mpr fun value hvalue => hpublic key value hkey ?_
    rw [h.first.others key hkey, hvalue]

/-- A template survives the push: it is a text, and has no private keys to lose. -/
theorem template_kept (rt : Runtime) {source : String} (hsource : isPrivate source = false)
    (hstrip : stripEntries entries = .ok stripped) :
    (entries.lookup (.str source) = none ∧ stripped.lookup (.str source) = none) ∨
      ∃ template template', entries.lookup (.str source) = some template ∧
        stripped.lookup (.str source) = some template' ∧
        ∀ found, compileGlobPattern rt template = .ok found →
          compileGlobPattern rt template' = .ok found := by
  rcases lookup_stripEntries hsource hstrip with hnone |
    ⟨template, template', htemplate, hval, htemplate'⟩
  · exact .inl hnone
  · exact .inr ⟨template, template', htemplate, htemplate',
      fun found hfound => compileGlobPattern_strip hfound hval⟩

/-- The socket glob is compiled to the same, or there is none and the push leaves
no trace of a compiled one. -/
theorem CompiledTwice.socket (h : CompiledTwice rt entries stripped compiled recompiled) :
    (compiled.lookup (.str "socket_glob") = none ∧
      compiled.lookup (.str "_regex") = entries.lookup (.str "_regex") ∧
      recompiled.lookup (.str "_fnmatch") = none) ∨
    ((compiled.lookup (.str "socket_glob")).isSome ∧ ∃ shell atoms,
      compiled.lookup (.str "_fnmatch") = some (.str shell) ∧
      compiled.lookup (.str "_regex") = some (.pattern atoms) ∧
      recompiled.lookup (.str "_fnmatch") = some (.str shell) ∧
      recompiled.lookup (.str "_regex") = some (.pattern atoms)) := by
  rw [h.first.others "socket_glob" (by decide)]
  have hpublic : isPrivate "socket_glob" = false := by decide
  rcases template_kept rt hpublic h.strip with
    ⟨hnone, hnone'⟩ | ⟨glob, glob', hglob, hglob', hcompile⟩
  · obtain ⟨-, hregex⟩ := h.first.socket_of_none hnone
    obtain ⟨hfn, -⟩ := h.second.socket_of_none hnone'
    exact .inl ⟨hnone, hregex, hfn.trans (lookup_private h.keys h.strip (by decide))⟩
  · obtain ⟨found, hfound, hfn, hregex⟩ := h.first.socket_of_some hglob
    obtain ⟨found', hfound', hfn', hregex'⟩ := h.second.socket_of_some hglob'
    cases hfound'.symm.trans (hcompile found hfound)
    exact .inr ⟨by rw [hglob]; rfl, found.1, found.2, hfn, hregex, hfn', hregex'⟩

/-- The name template likewise. -/
theorem CompiledTwice.name (h : CompiledTwice rt entries stripped compiled recompiled) :
    (compiled.lookup (.str "console_name") = none ∧
      compiled.lookup (.str "_name_regex") = entries.lookup (.str "_name_regex") ∧
      recompiled.lookup (.str "_name_regex") = none) ∨
    ((compiled.lookup (.str "console_name")).isSome ∧ ∃ atoms,
      compiled.lookup (.str "_name_regex") = some (.pattern atoms) ∧
      recompiled.lookup (.str "_name_regex") = some (.pattern atoms)) := by
  rw [h.first.others "console_name" (by decide)]
  have hpublic : isPrivate "console_name" = false := by decide
  rcases template_kept rt hpublic h.strip with
    ⟨hnone, hnone'⟩ | ⟨template, template', htemplate, htemplate', hcompile⟩
  · have hregex' := h.second.name_of_none hnone'
    exact .inl ⟨hnone, h.first.name_of_none hnone,
      hregex'.trans (lookup_private h.keys h.strip (by decide))⟩
  · obtain ⟨found, hfound, hregex⟩ := h.first.name_of_some htemplate
    obtain ⟨found', hfound', hregex'⟩ := h.second.name_of_some htemplate'
    cases hfound'.symm.trans (hcompile found hfound)
    exact .inr ⟨by rw [htemplate]; rfl, found.2, hregex, hregex'⟩

/-- No compiled expression comes from the file. -/
theorem not_pattern_of_keyed {test : Key → Bool} {key : Key} {value : PyVal}
    (hkeys : keyedEntries test entries = true) (hlookup : entries.lookup key = some value)
    (atoms : List Atom) : value ≠ .pattern atoms := by
  rintro rfl
  cases (keyed_of_lookup hkeys hlookup).2

end

/-- Only a dictionary has a `get`. -/
theorem get_other {value : PyVal} (hvalue : ∀ entries, value ≠ .dict entries) (key : String)
    (default : PyVal) : value.get key default = value.noAttribute "get" := by
  cases value with
  | dict entries => exact absurd rfl (hvalue entries)
  | none | bool | int | float | str | list | pattern | date => rfl

theorem items_other {value : PyVal} (hvalue : ∀ entries, value ≠ .dict entries) :
    value.items = value.noAttribute "items" := by
  cases value with
  | dict entries => exact absurd rfl (hvalue entries)
  | none | bool | int | float | str | list | pattern | date => rfl

theorem noAttribute_strip {value value' : PyVal} (h : strip value = .ok value') (name : String) :
    (value'.noAttribute name : Py α) = value.noAttribute name := by
  rw [PyVal.noAttribute, PyVal.noAttribute, typeName_strip h]

section

variable {rt : Runtime} {cfg pushed : PyVal}

/-- What a lookup reads through a section, where that is no dictionary on either
side, is the same error. -/
theorem section_cases (h : Pushed rt cfg pushed) (name : String) (hname : isPrivate name = false)
    (hne : name ≠ "console_patterns") :
    (∃ entries stripped, cfg.get name .emptyDict = .ok (.dict entries) ∧
      pushed.get name .emptyDict = .ok (.dict stripped) ∧
      keyedEntries isString entries = true ∧ stripEntries entries = .ok stripped) ∨
    ∃ value value', cfg.get name .emptyDict = .ok value ∧
      pushed.get name .emptyDict = .ok value' ∧ (∀ entries, value ≠ .dict entries) ∧
      (∀ entries, value' ≠ .dict entries) ∧
      ∀ {α : Type} attr, (value'.noAttribute attr : Py α) = value.noAttribute attr := by
  obtain ⟨value, value', hvalue, hvalue', hstrip, hkeys⟩ :=
    h.section_kept name .emptyDict hname hne rfl
  rcases value.dict_or_other with ⟨entries, rfl⟩ | hother
  · obtain ⟨stripped, hstripped, rfl⟩ := strip_dict hstrip
    rw [keyed] at hkeys
    exact .inl ⟨entries, stripped, hvalue, hvalue', hkeys, hstripped⟩
  · exact .inr ⟨value, value', hvalue, hvalue', hother, not_dict_strip hstrip hother,
      fun attr => noAttribute_strip hstrip attr⟩

theorem forall_dict_iff {result : Py PyVal} {entries : List (Key × PyVal)}
    (h : result = .ok (.dict entries)) {P : List (Key × PyVal) → Prop} :
    (∀ found, result = .ok (.dict found) → P found) ↔ P entries := by
  subst h
  constructor
  · exact fun hall => hall entries rfl
  · rintro hentries _ ⟨⟩
    exact hentries

theorem forall_dict_of_other {result : Py PyVal} {value : PyVal} (h : result = .ok value)
    (hvalue : ∀ entries, value ≠ .dict entries) {P : List (Key × PyVal) → Prop}
    (found : List (Key × PyVal)) (hfound : result = .ok (.dict found)) : P found :=
  absurd (Except.ok.inj (h.symm.trans hfound)) (hvalue found)

end

/-- What is no dictionary stays true or false through the push. -/
theorem truthy_strip {value value' : PyVal} (h : strip value = .ok value')
    (hvalue : ∀ entries, value ≠ .dict entries) : value'.truthy = value.truthy := by
  cases value with
  | dict entries => exact absurd rfl (hvalue entries)
  | list items =>
      cases items with
      | nil =>
          cases h
          rfl
      | cons item rest =>
          obtain ⟨items', hitems, rfl⟩ := strip_list h
          obtain ⟨item', -, hitems⟩ := bind_eq_ok.mp hitems
          obtain ⟨rest', -, hitems⟩ := bind_eq_ok.mp hitems
          cases hitems
          rfl
  | none | bool | int | float | str | pattern | date =>
      cases h
      rfl

end Vnctlsd.PushedConfig
