import Vnctlsd.ConsoleConfigStore

/-! What is left of a configuration that goes through `get_raw` and `update`, as
every push from the monitor to the other processes does. -/
namespace Vnctlsd.ConfigPush
open Vnctlsd.Python GlobPatterns ConsoleConfigStore

def isString : Key → Bool
  | .str _ => true
  | _ => false

def isPublic : Key → Bool
  | .str key => !isPrivate key
  | _ => false

mutual

/-- The keys at every depth pass a test, and no compiled expression is in sight. -/
def keyed (test : Key → Bool) : PyVal → Bool
  | .list items => keyedItems test items
  | .dict entries => keyedEntries test entries
  | .pattern _ => false
  | _ => true

def keyedItems (test : Key → Bool) : List PyVal → Bool
  | [] => true
  | item :: rest => keyed test item && keyedItems test rest

def keyedEntries (test : Key → Bool) : List (Key × PyVal) → Bool
  | [] => true
  | (key, value) :: rest => test key && keyed test value && keyedEntries test rest

end

mutual

theorem strip_of_public {value : PyVal} (h : keyed isPublic value = true) :
    strip value = .ok value := by
  cases value with
  | list items =>
      have hitems : stripItems items = .ok items := stripItems_of_public (by rwa [keyed] at h)
      rw [strip, hitems]
      rfl
  | dict entries =>
      have hentries : stripEntries entries = .ok entries :=
        stripEntries_of_public (by rwa [keyed] at h)
      rw [strip, hentries]
      rfl
  | none | bool | int | float | str | date => rfl
  | pattern => cases h

theorem stripItems_of_public {items : List PyVal} (h : keyedItems isPublic items = true) :
    stripItems items = .ok items := by
  cases items with
  | nil => rfl
  | cons item rest =>
      rw [keyedItems, Bool.and_eq_true] at h
      rw [stripItems, strip_of_public h.1, stripItems_of_public h.2]
      rfl

theorem stripEntries_of_public {entries : List (Key × PyVal)}
    (h : keyedEntries isPublic entries = true) : stripEntries entries = .ok entries := by
  cases entries with
  | nil => rfl
  | cons entry rest =>
      obtain ⟨key, value⟩ := entry
      rw [keyedEntries, Bool.and_eq_true, Bool.and_eq_true] at h
      obtain ⟨⟨hkey, hvalue⟩, hrest⟩ := h
      cases key with
      | str key =>
          have hpublic : isPrivate key = false := Bool.not_eq_true' _ ▸ hkey
          rw [stripEntries, hpublic, strip_of_public hvalue, stripEntries_of_public hrest]
          rfl
      | none | int | float | pattern | date => cases hkey

end

mutual

/-- With string keys stripping succeeds, and leaves public keys only. -/
theorem strip_of_strings {value : PyVal} (h : keyed isString value = true) :
    ∃ stripped, strip value = .ok stripped ∧ keyed isPublic stripped = true := by
  cases value with
  | list items =>
      obtain ⟨stripped, hstrip, hpublic⟩ := stripItems_of_strings (by rwa [keyed] at h)
      refine ⟨.list stripped, ?_, by rwa [keyed]⟩
      rw [strip, hstrip]
      rfl
  | dict entries =>
      obtain ⟨stripped, hstrip, hpublic⟩ := stripEntries_of_strings (by rwa [keyed] at h)
      refine ⟨.dict stripped, ?_, by rwa [keyed]⟩
      rw [strip, hstrip]
      rfl
  | none | bool | int | float | str | date => exact ⟨_, rfl, rfl⟩
  | pattern => cases h

theorem stripItems_of_strings {items : List PyVal} (h : keyedItems isString items = true) :
    ∃ stripped, stripItems items = .ok stripped ∧ keyedItems isPublic stripped = true := by
  cases items with
  | nil => exact ⟨[], rfl, rfl⟩
  | cons item rest =>
      rw [keyedItems, Bool.and_eq_true] at h
      obtain ⟨item', hitem, hpublic⟩ := strip_of_strings h.1
      obtain ⟨rest', hrest, hothers⟩ := stripItems_of_strings h.2
      refine ⟨item' :: rest', ?_, ?_⟩
      · rw [stripItems, hitem, hrest]
        rfl
      · rw [keyedItems, hpublic, hothers]
        rfl

theorem stripEntries_of_strings {entries : List (Key × PyVal)}
    (h : keyedEntries isString entries = true) :
    ∃ stripped, stripEntries entries = .ok stripped ∧ keyedEntries isPublic stripped = true := by
  cases entries with
  | nil => exact ⟨[], rfl, rfl⟩
  | cons entry rest =>
      obtain ⟨key, value⟩ := entry
      rw [keyedEntries, Bool.and_eq_true, Bool.and_eq_true] at h
      obtain ⟨⟨hkey, hvalue⟩, hrest⟩ := h
      obtain ⟨rest', hrest', hothers⟩ := stripEntries_of_strings hrest
      cases key with
      | str key =>
          rw [stripEntries]
          cases hprivate : isPrivate key with
          | true => exact ⟨rest', hrest', hothers⟩
          | false =>
              obtain ⟨value', hvalue', hpublic⟩ := strip_of_strings hvalue
              refine ⟨(.str key, value') :: rest', ?_, ?_⟩
              · rw [hvalue', hrest']
                rfl
              · rw [keyedEntries, hpublic, hothers, isPublic, hprivate]
                rfl
      | none | int | float | pattern | date => cases hkey

end

/-- Stripping changes nothing exactly where no key is private. -/
theorem strip_eq_self_iff {value : PyVal} (h : keyed isString value = true) :
    strip value = .ok value ↔ keyed isPublic value = true := by
  constructor
  · intro hself
    obtain ⟨stripped, hstrip, hpublic⟩ := strip_of_strings h
    rw [hself] at hstrip
    cases hstrip
    exact hpublic
  · exact strip_of_public

theorem stripEntries_insertKey {key : String} (hkey : isPrivate key = true)
    (entries : List (Key × PyVal)) (value : PyVal) :
    stripEntries (PyVal.insertKey entries (.str key) value) = stripEntries entries := by
  induction entries with
  | nil =>
      rw [PyVal.insertKey, stripEntries.eq_def]
      simp only [hkey, if_true]
  | cons entry rest ih =>
      obtain ⟨entryKey, entryValue⟩ := entry
      unfold PyVal.insertKey
      split
      · rename_i heq
        obtain rfl : entryKey = .str key := heq
        rw [stripEntries, stripEntries, hkey]
        rfl
      · cases entryKey with
        | str name => rw [stripEntries, stripEntries, ih]
        | none | int | float | pattern | date => rfl

/-- The compiled fields are gone again. -/
theorem strip_precompilePattern {rt : Runtime} {pat compiled : PyVal}
    (h : precompilePattern rt pat = .ok compiled) : strip compiled = strip pat := by
  cases pat with
  | dict entries =>
      rw [precompilePattern_dict] at h
      obtain ⟨final, hfinal, rfl⟩ := map_eq_ok.mp h
      obtain ⟨middle, hsocket, hname⟩ := bind_eq_ok.mp hfinal
      have hmiddle : stripEntries middle = stripEntries entries := by
        rcases compileField_eq_ok.mp hsocket with ⟨-, rfl⟩ | ⟨glob, found, -, -, rfl⟩
        · rfl
        · unfold fileSocket
          rw [stripEntries_insertKey (by decide), stripEntries_insertKey (by decide)]
      have hfinal : stripEntries final = stripEntries middle := by
        rcases compileField_eq_ok.mp hname with ⟨-, rfl⟩ | ⟨template, found, -, -, rfl⟩
        · rfl
        · exact stripEntries_insertKey (by decide) _ _
      rw [strip, strip, hfinal, hmiddle]
  | none | bool | int | float | str | list | pattern | date =>
      obtain ⟨-, -, rfl⟩ := (precompilePattern_other (by intro entries heq; cases heq)).mp h
      rfl

theorem stripItems_precompile {rt : Runtime} {pats compiled : List PyVal}
    (h : pats.mapM (precompilePattern rt) = .ok compiled) :
    stripItems compiled = stripItems pats := by
  induction pats generalizing compiled with
  | nil =>
      cases h
      rfl
  | cons pat rest ih =>
      rw [List.mapM_cons] at h
      obtain ⟨head, hhead, h⟩ := bind_eq_ok.mp h
      obtain ⟨tail, htail, h⟩ := bind_eq_ok.mp h
      cases h
      rw [stripItems, stripItems, strip_precompilePattern hhead, ih htail]

theorem stripEntries_replace {entries : List (Key × PyVal)} {key : Key} {old new : PyVal}
    (hlookup : entries.lookup key = some old) (hsame : strip new = strip old) :
    stripEntries (PyVal.insertKey entries key new) = stripEntries entries := by
  induction entries with
  | nil => cases hlookup
  | cons entry rest ih =>
      obtain ⟨entryKey, entryValue⟩ := entry
      rw [List.lookup_cons] at hlookup
      unfold PyVal.insertKey
      split
      · rename_i heq
        obtain rfl : entryKey = key := heq
        rw [beq_self_eq_true] at hlookup
        cases Option.some.inj hlookup
        cases entryKey with
        | str name => rw [stripEntries, stripEntries, hsame]
        | none | int | float | pattern | date => rfl
      · rename_i hne
        rw [beq_false_of_ne (Ne.symm hne)] at hlookup
        cases entryKey with
        | str name => rw [stripEntries, stripEntries, ih hlookup]
        | none | int | float | pattern | date => rfl

/-- What is pushed is the file without its private keys. -/
theorem getRaw_precompilePatterns {rt : Runtime} {data cfg : PyVal}
    (h : precompilePatterns rt data = .ok cfg) : getRaw cfg = strip data := by
  obtain ⟨entries, found, rfl, hfound, rfl⟩ := precompilePatterns_eq_ok h
  cases found with
  | none => rfl
  | some compiled =>
      cases hlookup : entries.lookup (.str "console_patterns") with
      | none =>
          rw [hlookup] at hfound
          cases hfound
      | some pats =>
          rw [hlookup] at hfound
          have hsame : strip compiled = strip pats := by
            cases pats with
            | list items =>
                obtain ⟨items', hitems, heq⟩ := map_eq_ok.mp hfound
                cases heq
                rw [strip, strip, stripItems_precompile hitems]
            | none | bool | int | float | str | dict | pattern | date =>
                obtain ⟨heq, -⟩ := compileSection_other (by intro items heq; cases heq) hfound
                cases heq
                rfl
          unfold getRaw
          dsimp only
          rw [strip, strip, stripEntries_replace hlookup hsame]

/-- What stripping makes of the entries of a dictionary. -/
inductive Stripped : List (Key × PyVal) → List (Key × PyVal) → Prop where
  | nil : Stripped [] []
  | gone {name : String} {value : PyVal} {entries stripped : List (Key × PyVal)}
      (hkey : isPrivate name = true) (rest : Stripped entries stripped) :
      Stripped ((.str name, value) :: entries) stripped
  | kept {name : String} {value value' : PyVal} {entries stripped : List (Key × PyVal)}
      (hkey : isPrivate name = false) (hvalue : strip value = .ok value')
      (rest : Stripped entries stripped) :
      Stripped ((.str name, value) :: entries) ((.str name, value') :: stripped)

theorem stripped_of_ok {entries stripped : List (Key × PyVal)}
    (h : stripEntries entries = .ok stripped) : Stripped entries stripped := by
  induction entries generalizing stripped with
  | nil =>
      cases h
      exact .nil
  | cons entry rest ih =>
      obtain ⟨key, value⟩ := entry
      cases key with
      | str name =>
          rw [stripEntries] at h
          cases hkey : isPrivate name with
          | true =>
              rw [hkey] at h
              exact .gone hkey (ih h)
          | false =>
              rw [hkey] at h
              obtain ⟨value', hvalue, h⟩ := bind_eq_ok.mp h
              obtain ⟨others, hothers, h⟩ := bind_eq_ok.mp h
              cases h
              exact .kept hkey hvalue (ih hothers)
      | none | int | float | pattern | date => cases h

/-- A value under a public key is stripped and stays where it is. -/
theorem lookup_stripEntries {entries stripped : List (Key × PyVal)} {key : String}
    (hkey : isPrivate key = false) (h : stripEntries entries = .ok stripped) :
    (entries.lookup (.str key) = none ∧ stripped.lookup (.str key) = none) ∨
      ∃ value value', entries.lookup (.str key) = some value ∧ strip value = .ok value' ∧
        stripped.lookup (.str key) = some value' := by
  have hskip {name : String} {value : PyVal} {entries : List (Key × PyVal)} (hne : key ≠ name) :
      ((.str name, value) :: entries).lookup (.str key) = entries.lookup (.str key) := by
    rw [List.lookup_cons, beq_false_of_ne fun heq => hne (Key.str.inj heq)]
  replace h := stripped_of_ok h
  induction h with
  | nil => exact .inl ⟨rfl, rfl⟩
  | @gone name value entries stripped hprivate rest ih =>
      have hne : key ≠ name := by
        rintro rfl
        rw [hkey] at hprivate
        cases hprivate
      rw [hskip hne]
      exact ih
  | @kept name value value' entries stripped _ hvalue rest ih =>
      by_cases hname : key = name
      · subst hname
        exact .inr ⟨value, value', by simp, hvalue, by simp⟩
      · rw [hskip hname, hskip hname]
        exact ih

theorem compileGlobPattern_strip {rt : Runtime} {glob glob' : PyVal}
    {found : String × List Atom} (h : compileGlobPattern rt glob = .ok found)
    (hstrip : strip glob = .ok glob') : compileGlobPattern rt glob' = .ok found := by
  cases glob with
  | str text =>
      cases hstrip
      exact h
  | none | bool | int | float | list | dict | pattern | date => cases h

theorem eqStr_strip {value value' : PyVal} (h : strip value = .ok value') (text : String) :
    value'.eqStr text = value.eqStr text := by
  cases value with
  | list | dict =>
      obtain ⟨items, -, heq⟩ := bind_eq_ok.mp h
      cases heq
      rfl
  | none | bool | int | float | str | pattern | date =>
      cases h
      rfl

theorem any_eqStr_strip {items items' : List PyVal} (h : stripItems items = .ok items')
    (text : String) :
    (items'.any fun item => item.eqStr text) = items.any fun item => item.eqStr text := by
  induction items generalizing items' with
  | nil =>
      cases h
      rfl
  | cons item rest ih =>
      obtain ⟨item', hitem, h⟩ := bind_eq_ok.mp h
      obtain ⟨rest', hrest, h⟩ := bind_eq_ok.mp h
      cases h
      rw [List.any_cons, List.any_cons, eqStr_strip hitem, ih hrest]

theorem strip_list {items : List PyVal} {value' : PyVal} (h : strip (.list items) = .ok value') :
    ∃ items', stripItems items = .ok items' ∧ value' = .list items' := by
  obtain ⟨items', hitems, heq⟩ := bind_eq_ok.mp h
  exact ⟨items', hitems, (Except.ok.inj heq).symm⟩

theorem strip_dict {entries : List (Key × PyVal)} {value' : PyVal}
    (h : strip (.dict entries) = .ok value') :
    ∃ entries', stripEntries entries = .ok entries' ∧ value' = .dict entries' := by
  obtain ⟨entries', hentries, heq⟩ := bind_eq_ok.mp h
  exact ⟨entries', hentries, (Except.ok.inj heq).symm⟩

theorem lookup_of_stripped {entries stripped : List (Key × PyVal)} {key : String} {value' : PyVal}
    (hkey : isPrivate key = false) (hstrip : stripEntries entries = .ok stripped)
    (h : stripped.lookup (.str key) = some value') :
    ∃ value, entries.lookup (.str key) = some value ∧ strip value = .ok value' := by
  rcases lookup_stripEntries hkey hstrip with ⟨-, hnone⟩ | ⟨value, found, hvalue, hstripped, hfound⟩
  · rw [h] at hnone
    cases hnone
  · rw [h] at hfound
    cases hfound
    exact ⟨value, hvalue, hstripped⟩

/-- A pattern that compiles does so without its private keys. -/
theorem precompilePattern_strip {rt : Runtime} {pat compiled pat' : PyVal}
    (h : precompilePattern rt pat = .ok compiled) (hstrip : strip pat = .ok pat') :
    ∃ compiled', precompilePattern rt pat' = .ok compiled' := by
  cases pat with
  | dict entries =>
      obtain ⟨found, -, hfound⟩ := precompilePattern_spec h
      obtain ⟨stripped, hstripped, rfl⟩ := strip_dict hstrip
      refine precompilePattern_returns ?_ ?_
      · intro glob' hglob'
        obtain ⟨glob, hglob, hvalue⟩ := lookup_of_stripped (by decide) hstripped hglob'
        obtain ⟨compiled, hcompile, -⟩ := hfound.socket_of_some hglob
        exact ⟨compiled, compileGlobPattern_strip hcompile hvalue⟩
      · intro template' htemplate'
        obtain ⟨template, htemplate, hvalue⟩ := lookup_of_stripped (by decide) hstripped htemplate'
        obtain ⟨compiled, hcompile, -⟩ := hfound.name_of_some htemplate
        exact ⟨compiled, compileGlobPattern_strip hcompile hvalue⟩
  | list items =>
      obtain ⟨hsocket, hname, -⟩ :=
        (precompilePattern_other (by intro entries heq; cases heq)).mp h
      obtain ⟨items', hitems, rfl⟩ := strip_list hstrip
      refine ⟨.list items', (precompilePattern_other (by intro entries heq; cases heq)).mpr ?_⟩
      simp only [PyVal.contains, any_eqStr_strip hitems] at hsocket hname ⊢
      exact ⟨hsocket, hname, trivial⟩
  | none | bool | int | float | str | pattern | date =>
      cases hstrip
      exact ⟨compiled, h⟩

theorem precompileItems_strip {rt : Runtime} {pats pats' : List PyVal}
    (h : ∀ pat ∈ pats, ∃ compiled, precompilePattern rt pat = .ok compiled)
    (hstrip : stripItems pats = .ok pats') :
    ∀ pat' ∈ pats', ∃ compiled, precompilePattern rt pat' = .ok compiled := by
  induction pats generalizing pats' with
  | nil =>
      cases hstrip
      exact h
  | cons pat rest ih =>
      obtain ⟨head, hhead, hstrip⟩ := bind_eq_ok.mp hstrip
      obtain ⟨tail, htail, hstrip⟩ := bind_eq_ok.mp hstrip
      cases hstrip
      rw [List.forall_mem_cons] at h ⊢
      obtain ⟨compiled, hcompiled⟩ := h.1
      exact ⟨precompilePattern_strip hcompiled hhead, ih h.2 htail⟩

theorem keys_stripEntries {entries stripped : List (Key × PyVal)}
    (h : stripEntries entries = .ok stripped) :
    stripped.map Prod.fst = (entries.map Prod.fst).filter isPublic := by
  replace h := stripped_of_ok h
  induction h with
  | nil => rfl
  | @gone name _ _ _ hkey _ ih =>
      have hprivate : isPublic (.str name) = false := by rw [isPublic, hkey]; rfl
      rw [List.map_cons, List.filter_cons_of_neg (by simp [hprivate]), ih]
  | @kept name _ _ _ _ hkey _ _ ih =>
      have hpublic : isPublic (.str name) = true := by rw [isPublic, hkey]; rfl
      rw [List.map_cons, List.map_cons, List.filter_cons_of_pos hpublic, ih]

/-- The patterns of a loaded configuration compile once more after the push. -/
theorem compileSection_strip {rt : Runtime} {pats pats' : PyVal} {found : Option PyVal}
    (h : compileSection rt (some pats) = .ok found) (hstrip : strip pats = .ok pats') :
    ∃ found', compileSection rt (some pats') = .ok found' := by
  cases pats with
  | list items =>
      obtain ⟨compiled, hcompiled, -⟩ := map_eq_ok.mp h
      obtain ⟨items', hitems, rfl⟩ := strip_list hstrip
      obtain ⟨compiled', hcompiled'⟩ := mapM_returns_iff.mpr
        (precompileItems_strip (mapM_returns_iff.mp ⟨compiled, hcompiled⟩) hitems)
      exact ⟨some (.list compiled'), map_eq_ok.mpr ⟨compiled', hcompiled', rfl⟩⟩
  | dict entries =>
      obtain ⟨-, items, compiled, hitems, hcompiled⟩ :=
        compileSection_other (by intro items heq; cases heq) h
      cases hitems
      obtain ⟨stripped, hstripped, rfl⟩ := strip_dict hstrip
      have hall := mapM_returns_iff.mp ⟨compiled, hcompiled⟩
      have hrest : ∀ item ∈ stripped.map fun entry => PyVal.ofKey entry.1,
          ∃ compiled, precompilePattern rt item = .ok compiled := by
        intro item hitem
        obtain ⟨entry, hentry, rfl⟩ := List.mem_map.mp hitem
        have hkey : entry.1 ∈ stripped.map Prod.fst := List.mem_map_of_mem hentry
        rw [keys_stripEntries hstripped] at hkey
        obtain ⟨old, hold, heq⟩ := List.mem_map.mp (List.mem_of_mem_filter hkey)
        exact hall _ (List.mem_map.mpr ⟨old, hold, by rw [heq]⟩)
      obtain ⟨compiled', hcompiled'⟩ := mapM_returns_iff.mpr hrest
      refine ⟨some (.dict stripped), ?_⟩
      simp only [compileSection, PyVal.iter, bind, Except.bind, hcompiled']
      rfl
  | none | bool | int | float | str | pattern | date =>
      cases hstrip
      exact ⟨found, h⟩

/-- A push of a loaded configuration with string keys arrives. -/
theorem update_returns {rt : Runtime} {data cfg : PyVal} (hkeys : keyed isString data = true)
    (hload : precompilePatterns rt data = .ok cfg) :
    ∃ raw pushed, getRaw cfg = .ok raw ∧ strip data = .ok raw ∧ update rt raw = .ok pushed := by
  obtain ⟨raw, hraw, -⟩ := strip_of_strings hkeys
  obtain ⟨entries, compiled, loaded⟩ := precompilePatterns_spec hload
  obtain rfl := loaded.file
  obtain ⟨stripped, hstripped, rfl⟩ := strip_dict hraw
  have hsection : ∃ found, compileSection rt (stripped.lookup (.str "console_patterns")) =
      .ok found := by
    have hkey : isPrivate "console_patterns" = false := by decide
    rcases lookup_stripEntries hkey hstripped with
      ⟨-, hnone⟩ | ⟨pats, pats', hpats, hstrip, hpats'⟩
    · exact ⟨none, by rw [hnone]; rfl⟩
    · have hfound := loaded.patterns
      rw [hpats] at hfound
      rw [hpats']
      exact compileSection_strip hfound hstrip
  obtain ⟨found, hfound⟩ := hsection
  have hupdate := precompilePatterns_dict rt stripped
  rw [hfound] at hupdate
  exact ⟨_, _, (getRaw_precompilePatterns hload).trans hraw, hraw, hupdate⟩

mutual

theorem strings_of_public {value : PyVal} (h : keyed isPublic value = true) :
    keyed isString value = true := by
  cases value with
  | list items =>
      rw [keyed] at h ⊢
      exact stringsItems_of_public h
  | dict entries =>
      rw [keyed] at h ⊢
      exact stringsEntries_of_public h
  | none | bool | int | float | str | date => rfl
  | pattern => cases h

theorem stringsItems_of_public {items : List PyVal} (h : keyedItems isPublic items = true) :
    keyedItems isString items = true := by
  cases items with
  | nil => rfl
  | cons item rest =>
      rw [keyedItems, Bool.and_eq_true] at h ⊢
      exact ⟨strings_of_public h.1, stringsItems_of_public h.2⟩

theorem stringsEntries_of_public {entries : List (Key × PyVal)}
    (h : keyedEntries isPublic entries = true) : keyedEntries isString entries = true := by
  cases entries with
  | nil => rfl
  | cons entry rest =>
      obtain ⟨key, value⟩ := entry
      rw [keyedEntries, Bool.and_eq_true, Bool.and_eq_true] at h ⊢
      obtain ⟨⟨hkey, hvalue⟩, hrest⟩ := h
      refine ⟨⟨?_, strings_of_public hvalue⟩, stringsEntries_of_public hrest⟩
      cases key with
      | str key => rfl
      | none | int | float | pattern | date => cases hkey

end

/-- The file has an entry that is not private. -/
def holdsPublic (data : PyVal) : Bool :=
  match data with
  | .dict entries => entries.any fun entry => isPublic entry.1
  | _ => false

theorem isEmpty_stripEntries {entries stripped : List (Key × PyVal)}
    (h : stripEntries entries = .ok stripped) :
    (!stripped.isEmpty) = entries.any fun entry => isPublic entry.1 := by
  replace h := stripped_of_ok h
  induction h with
  | nil => rfl
  | gone hkey _ ih => rw [List.any_cons, isPublic, hkey, ih]; rfl
  | kept hkey => rw [List.any_cons, isPublic, hkey]; rfl

theorem truthy_strip_dict {entries : List (Key × PyVal)} {raw : PyVal}
    (h : strip (.dict entries) = .ok raw) : raw.truthy = holdsPublic (.dict entries) := by
  obtain ⟨stripped, hstrip, rfl⟩ := strip_dict h
  exact isEmpty_stripEntries hstrip

/-- The sections of the configuration that the lookups read. -/
def sections : List String :=
  ["consoles", "console_patterns", "commands", "defaults", "socket_validation"]

/-- No key of a section that the lookups read is private, at any depth. -/
def publicSections (data : PyVal) : Bool :=
  match data with
  | .dict entries => sections.all fun name =>
      (entries.lookup (.str name)).all (keyed isPublic)
  | _ => true

def SameSections (cfg pushed : PyVal) : Prop :=
  ∀ name ∈ sections, ∀ default, pushed.get name default = cfg.get name default

/-- Both stores answer every question alike. -/
structure SameAnswers (rt : Runtime) (cfg pushed : PyVal) : Prop where
  explicit : ∀ cname, explicitConsole pushed cname = explicitConsole cfg cname
  socket : ∀ path, matchSocket pushed path = matchSocket cfg path
  name : ∀ cname, matchConsoleName pushed cname = matchConsoleName cfg cname
  command : ∀ action, getCommand pushed action = getCommand cfg action
  commands : getAllCommands pushed = getAllCommands cfg
  defaultExec : getDefaultExec pushed = getDefaultExec cfg
  watchDir : getWatchDir pushed = getWatchDir cfg
  trustedUid : ∀ passwd defn vars, resolveTrustedUid rt passwd pushed defn vars =
    resolveTrustedUid rt passwd cfg defn vars

theorem SameSections.answers {cfg pushed : PyVal} (h : SameSections cfg pushed) (rt : Runtime) :
    SameAnswers rt cfg pushed := by
  have hconsoles := h "consoles" (by decide)
  have hpatterns := h "console_patterns" (by decide)
  have hcommands := h "commands" (by decide)
  have hdefaults := h "defaults" (by decide)
  have hvalidation := h "socket_validation" (by decide)
  constructor
  · intro cname
    rw [explicitConsole, explicitConsole, hconsoles]
  · intro path
    rw [matchSocket, matchSocket, hconsoles, hpatterns]
  · intro cname
    rw [matchConsoleName, matchConsoleName, hpatterns]
  · intro action
    rw [getCommand, getCommand, hcommands]
  · rw [getAllCommands, getAllCommands, hcommands]
  · rw [getDefaultExec, getDefaultExec, hdefaults]
  · rw [getWatchDir, getWatchDir, hvalidation]
  · intro passwd defn vars
    rw [resolveTrustedUid, resolveTrustedUid, hvalidation]

theorem SameAnswers.symm {rt : Runtime} {left right : PyVal} (h : SameAnswers rt left right) :
    SameAnswers rt right left :=
  ⟨fun cname => (h.explicit cname).symm, fun path => (h.socket path).symm,
    fun cname => (h.name cname).symm, fun action => (h.command action).symm, h.commands.symm,
    h.defaultExec.symm, h.watchDir.symm,
    fun passwd defn vars => (h.trustedUid passwd defn vars).symm⟩

theorem SameAnswers.trans {rt : Runtime} {left middle right : PyVal}
    (h : SameAnswers rt left middle) (h' : SameAnswers rt middle right) :
    SameAnswers rt left right :=
  ⟨fun cname => (h'.explicit cname).trans (h.explicit cname),
    fun path => (h'.socket path).trans (h.socket path),
    fun cname => (h'.name cname).trans (h.name cname),
    fun action => (h'.command action).trans (h.command action), h'.commands.trans h.commands,
    h'.defaultExec.trans h.defaultExec, h'.watchDir.trans h.watchDir,
    fun passwd defn vars => (h'.trustedUid passwd defn vars).trans (h.trustedUid passwd defn vars)⟩

/-- Sections without private keys come through the push as they are. -/
theorem sameSections_of_public {rt : Runtime} {data cfg raw pushed : PyVal}
    (hpublic : publicSections data = true) (hload : precompilePatterns rt data = .ok cfg)
    (hraw : getRaw cfg = .ok raw) (hpush : update rt raw = .ok pushed) :
    SameSections cfg pushed := by
  rw [getRaw_precompilePatterns hload] at hraw
  obtain ⟨entries, compiled, loaded⟩ := precompilePatterns_spec hload
  obtain ⟨stripped, recompiled, received⟩ := precompilePatterns_spec hpush
  obtain rfl := loaded.file
  obtain rfl := received.file
  have hstrip : stripEntries entries = .ok stripped := by
    obtain ⟨found, hfound, heq⟩ := bind_eq_ok.mp hraw
    cases heq
    exact hfound
  have hsame : ∀ name ∈ sections, stripped.lookup (.str name) = entries.lookup (.str name) := by
    intro name hname
    have hkey : isPrivate name = false := by
      revert name
      decide
    rcases lookup_stripEntries hkey hstrip with ⟨hnone, hnone'⟩ | ⟨value, value', hvalue, hval, h'⟩
    · rw [hnone, hnone']
    · have hsection := List.all_eq_true.mp hpublic name hname
      rw [hvalue] at hsection
      rw [strip_of_public hsection] at hval
      cases hval
      rw [hvalue, h']
  intro name hname default
  rw [loaded.store, received.store, PyVal.get_dict, PyVal.get_dict]
  by_cases hpatterns : name = "console_patterns"
  · subst hpatterns
    have hfound := received.patterns
    rw [hsame _ hname, loaded.patterns] at hfound
    rw [Except.ok.inj hfound]
  · have hne : (.str name : Key) ≠ .str "console_patterns" :=
      fun heq => hpatterns (Key.str.inj heq)
    rw [loaded.others _ hne, received.others _ hne, hsame _ hname]

end Vnctlsd.ConfigPush
