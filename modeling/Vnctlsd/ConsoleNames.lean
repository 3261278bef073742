import Vnctlsd.ACLResolver
import Vnctlsd.Library.Dict
import Vnctlsd.Library.Template
import Vnctlsd.Watcher.Announce

/-! Console names made from the template of a pattern, and read back by it.  The
watcher fills the template with what the socket path has captured; the worker
and the monitor match the name against the templates in the order of the file. -/
namespace Vnctlsd.ConsoleNames
open Vnctlsd.Library.Template Vnctlsd.Python GlobPatterns ConsoleConfigStore Watcher

def piece : Atom → Piece Char String
  | .lit c => .lit c
  | .group name => .hole name

/-- `[^/]`. -/
def inValue (c : Char) : Bool := c != '/'

/-- What `$` lets be left over. -/
def lineEnd (s : List Char) : Bool := s == [] || s == ['\n']

/-- The compiled template is the greedy reader of its pieces. -/
theorem matchAtoms_eq_readBack (atoms : List Atom) (s : List Char) :
    matchAtoms atoms s = readBack inValue lineEnd (atoms.map piece) s := by
  induction atoms generalizing s with
  | nil => simp [matchAtoms, readBack, lineEnd]
  | cons atom rest ih =>
      cases atom with
      | lit c =>
          cases s with
          | nil => rfl
          | cons d s =>
              rw [matchAtoms, List.map_cons, piece, readBack, ih]
      | group name =>
          simp only [matchAtoms, List.map_cons, piece, readBack, ih]
          rfl

theorem names_map_piece (atoms : List Atom) : names (atoms.map piece) = groupNames atoms := by
  induction atoms with
  | nil => rfl
  | cons atom rest ih =>
      cases atom with
      | lit c => exact ih
      | group name => exact congrArg (name :: ·) ih

theorem eq_brace_of_dropWhile {s tail : List Char} {c : Char}
    (h : s.dropWhile (· != '}') = c :: tail) : c = '}' := by
  have hne : s.dropWhile (· != '}') ≠ [] := by
    rw [h]
    exact List.cons_ne_nil c tail
  have hhead := List.head_dropWhile_not (· != '}') hne
  simpa [h] using hhead

theorem placeholder?_eq_some {s name rest : List Char} (h : placeholder? s = some (name, rest)) :
    s = name ++ '}' :: rest ∧ name ≠ [] := by
  have hsplit := List.takeWhile_append_dropWhile (p := (· != '}')) (l := s)
  unfold placeholder? at h
  dsimp only at h
  split at h
  · cases h
  · rename_i c tail hdrop
    obtain rfl := eq_brace_of_dropWhile hdrop
    split at h
    · cases h
    · rename_i hname
      cases h
      rw [hdrop] at hsplit
      exact ⟨hsplit.symm, fun hnil => hname (by rw [hnil]; rfl)⟩

theorem placeholder?_eq_none {s : List Char} (h : placeholder? s = none) :
    (∀ c ∈ s, c ≠ '}') ∨ ∃ rest, s = '}' :: rest := by
  have hsplit := List.takeWhile_append_dropWhile (p := (· != '}')) (l := s)
  unfold placeholder? at h
  dsimp only at h
  split at h
  · rename_i hdrop
    left
    intro c hc
    have hall := List.dropWhile_eq_nil_iff.mp hdrop c hc
    simpa using hall
  · rename_i c tail hdrop
    obtain rfl := eq_brace_of_dropWhile hdrop
    split at h
    · rename_i hname
      rw [List.isEmpty_iff.mp hname, hdrop, List.nil_append] at hsplit
      exact .inr ⟨tail, hsplit.symm⟩
    · cases h

/-- Behind a brace that opens no placeholder another one opens none either. -/
theorem placeholder?_tail {s : List Char} (h : placeholder? ('{' :: s) = none) :
    placeholder? s = none := by
  rcases placeholder?_eq_none h with hunclosed | ⟨rest, hrest⟩
  · have hs := (List.forall_mem_cons.mp hunclosed).2
    cases hfound : placeholder? s with
    | none => rfl
    | some found =>
        obtain ⟨name, rest⟩ := found
        obtain ⟨rfl, -⟩ := placeholder?_eq_some hfound
        exact absurd rfl (hs '}' (List.mem_append_right _ (List.mem_cons_self ..)))
  · cases hrest

/-- The template has no brace outside its placeholders. -/
def plainAtoms (atoms : List Atom) : Bool :=
  atoms.all fun atom => match atom with
    | .lit c => !Format.isBrace c
    | .group _ => true

/-- What `format` makes of a template all of whose variables are known: without
further braces the filled template, and otherwise less than that. -/
inductive Rendered (atoms : List Atom) (filled : List Char) : Py (List Char) → Prop where
  | whole : plainAtoms atoms = true → Rendered atoms filled (.ok filled)
  | shorter {text : List Char} : plainAtoms atoms = false → text.length < filled.length →
      Rendered atoms filled (.ok text)
  | refused {e : PyExc} : plainAtoms atoms = false → e.kind ≠ .keyError →
      Rendered atoms filled (.error e)

section

variable {atoms : List Atom} {filled : List Char} {outcome : Py (List Char)}

theorem Rendered.char (h : Rendered atoms filled outcome) {c : Char}
    (hc : Format.isBrace c = false) :
    Rendered (.lit c :: atoms) (c :: filled) (outcome.map (c :: ·)) := by
  have hplain : plainAtoms (.lit c :: atoms) = plainAtoms atoms := by
    simp [plainAtoms, hc]
  cases h with
  | whole h => exact .whole (hplain.trans h)
  | shorter h hlength => exact .shorter (hplain.trans h) (Nat.succ_lt_succ hlength)
  | refused h hkind => exact .refused (hplain.trans h) hkind

theorem Rendered.group (h : Rendered atoms filled outcome) (name : String) (text : List Char) :
    Rendered (.group name :: atoms) (text ++ filled) (outcome.map (text ++ ·)) := by
  cases h with
  | whole h => exact .whole h
  | shorter h hlength =>
      refine .shorter h ?_
      simp only [List.length_append]
      omega
  | refused h hkind => exact .refused h hkind

theorem not_plainAtoms {c : Char} (hc : Format.isBrace c = true) (rest : List Atom) :
    plainAtoms (.lit c :: rest) = false := by
  simp [plainAtoms, hc]

/-- Two braces in the template are one in the text. -/
theorem Rendered.pair (h : Rendered atoms filled outcome) {c : Char}
    (hc : Format.isBrace c = true) :
    Rendered (.lit c :: .lit c :: atoms) (c :: c :: filled) (outcome.map (c :: ·)) := by
  have hplain := not_plainAtoms hc (.lit c :: atoms)
  cases h with
  | whole h => exact .shorter hplain (Nat.lt_succ_self _)
  | shorter h hlength => exact .shorter hplain (Nat.succ_lt_succ (Nat.lt_succ_of_lt hlength))
  | refused h hkind => exact .refused hplain hkind

end

theorem renderAll_refused {rt : Runtime} {args : Format.Args}
    {expandSpec : List Char → Py (List Char)} {s : List Char} {e : PyExc} (fuel : Nat)
    (hs : s ≠ []) (h : Format.nextMarkup s = .error e) :
    Format.renderAll rt args expandSpec (fuel + 1) s = .error e := by
  rw [Format.renderAll_succ rt args expandSpec fuel hs, h]
  rfl

/-- An opening brace that opens no placeholder: doubled it is text, and otherwise
the template is refused. -/
theorem renderAll_loneBrace (rt : Runtime) (args : Format.Args) (hargs : args.mapping = false)
    (expandSpec : List Char → Py (List Char)) (fuel : Nat) {rest : List Char}
    (hnone : placeholder? rest = none) :
    (∃ tail, rest = '{' :: tail) ∨
      ∃ e, Format.renderAll rt args expandSpec (fuel + 1) ('{' :: rest) = .error e ∧
        e.kind ≠ .keyError := by
  have hne : '{' :: rest ≠ [] := List.cons_ne_nil _ _
  rcases placeholder?_eq_none hnone with hunclosed | ⟨tail, rfl⟩
  · cases rest with
    | nil => exact .inr ⟨_, renderAll_refused fuel hne rfl, nofun⟩
    | cons c tail =>
        by_cases hopen : c = '{'
        · exact .inl ⟨tail, by rw [hopen]⟩
        · obtain ⟨e, hparse, hkind⟩ := Format.parseField_unclosed hunclosed
          have hnext : Format.nextMarkup ('{' :: c :: tail) = .error e := by
            rw [Format.nextMarkup_field hopen, hparse]
            rfl
          exact .inr ⟨e, renderAll_refused fuel hne hnext, by rw [hkind]; exact nofun⟩
  · obtain ⟨mapping, fields⟩ := args
    obtain rfl : mapping = false := hargs
    exact .inr ⟨_, rfl, nofun⟩

theorem renderAll_loneClose (rt : Runtime) (args : Format.Args)
    (expandSpec : List Char → Py (List Char)) (fuel : Nat) (rest : List Char) :
    (∃ tail, rest = '}' :: tail) ∨
      ∃ e, Format.renderAll rt args expandSpec (fuel + 1) ('}' :: rest) = .error e ∧
        e.kind ≠ .keyError := by
  have hne : '}' :: rest ≠ [] := List.cons_ne_nil _ _
  cases rest with
  | nil => exact .inr ⟨_, renderAll_refused fuel hne rfl, nofun⟩
  | cons c tail =>
      by_cases hclose : c = '}'
      · exact .inl ⟨tail, by rw [hclose]⟩
      · have hnext : Format.nextMarkup ('}' :: c :: tail) =
            raise .valueError "Single '\x7d' encountered in format string" := by
          simp [Format.nextMarkup, Format.isBrace, hclose]
        exact .inr ⟨_, renderAll_refused fuel hne hnext, nofun⟩

/-- Every variable of the template is known, under a name `format` can look up. -/
def Known (args : Format.Args) (value : String → List Char) (atoms : List Atom) : Prop :=
  ∀ name ∈ groupNames atoms, Format.PlainName name.toList ∧
    args.fields.lookup name = some (.str (String.ofList (value name)))

/-- By the length of the template: every turn of both readers takes some of it. -/
theorem rendered_of_template {rt : Runtime} {args : Format.Args} (hargs : args.mapping = false)
    {expandSpec : List Char → Py (List Char)} {value : String → List Char} {bound : Nat}
    {s : List Char} {fuel turns : Nat} (hbound : s.length ≤ bound) (hfuel : s.length ≤ fuel)
    (hturns : s.length ≤ turns) (hknown : Known args value (atomsFrom fuel s)) :
    Rendered (atomsFrom fuel s) (fill value ((atomsFrom fuel s).map piece))
      (Format.renderAll rt args expandSpec turns s) := by
  induction bound generalizing s fuel turns with
  | zero =>
      obtain rfl := List.eq_nil_of_length_eq_zero (Nat.le_zero.mp hbound)
      cases fuel <;> cases turns <;> exact .whole rfl
  | succ bound ih =>
      cases s with
      | nil => cases fuel <;> cases turns <;> exact .whole rfl
      | cons c rest =>
          rw [List.length_cons] at hbound hfuel hturns
          obtain ⟨fuel, rfl⟩ : ∃ n, fuel = n + 1 := ⟨fuel - 1, by omega⟩
          obtain ⟨turns, rfl⟩ : ∃ n, turns = n + 1 := ⟨turns - 1, by omega⟩
          rw [atomsFrom] at hknown ⊢
          by_cases hopen : c = '{'
          · subst hopen
            rw [if_pos rfl] at hknown ⊢
            cases hplaceholder : placeholder? rest with
            | some found =>
                obtain ⟨name, tail⟩ := found
                obtain ⟨rfl, -⟩ := placeholder?_eq_some hplaceholder
                rw [hplaceholder] at hknown
                simp only [List.length_append, List.length_cons] at hbound hfuel hturns
                obtain ⟨⟨hname, hlookup⟩, htail⟩ := List.forall_mem_cons.mp hknown
                rw [String.toList_ofList] at hname
                have hrendered := @ih tail fuel turns
                  (by omega) (by omega) (by omega) htail
                have hgroup := hrendered.group (String.ofList name) (value (String.ofList name))
                have hrender := Format.renderAll_plain hname rt args expandSpec turns tail hlookup
                rw [String.toList_ofList] at hrender
                rw [List.cons_append] at hrender
                dsimp only
                rw [hrender]
                exact hgroup
            | none =>
                rw [hplaceholder] at hknown
                dsimp only at hknown ⊢
                rcases renderAll_loneBrace rt args hargs expandSpec turns hplaceholder with
                  ⟨tail, rfl⟩ | ⟨e, hrefused, hkind⟩
                · rw [List.length_cons] at hbound hfuel hturns
                  obtain ⟨fuel, rfl⟩ : ∃ n, fuel = n + 1 := ⟨fuel - 1, by omega⟩
                  have hnone := placeholder?_tail hplaceholder
                  have hatoms : atomsFrom (fuel + 1) ('{' :: tail) =
                      .lit '{' :: atomsFrom fuel tail := by
                    rw [atomsFrom, if_pos rfl, hnone]
                  rw [hatoms] at hknown ⊢
                  have hrendered := @ih tail fuel turns
                    (by omega) (by omega) (by omega) hknown
                  rw [Format.renderAll_openBrace]
                  exact hrendered.pair rfl
                · rw [hrefused]
                  exact .refused (not_plainAtoms rfl _) hkind
          · rw [if_neg hopen] at hknown ⊢
            by_cases hclose : c = '}'
            · subst hclose
              rcases renderAll_loneClose rt args expandSpec turns rest with
                ⟨tail, rfl⟩ | ⟨e, hrefused, hkind⟩
              · rw [List.length_cons] at hbound hfuel hturns
                obtain ⟨fuel, rfl⟩ : ∃ n, fuel = n + 1 := ⟨fuel - 1, by omega⟩
                have hatoms : atomsFrom (fuel + 1) ('}' :: tail) =
                    .lit '}' :: atomsFrom fuel tail := rfl
                rw [hatoms] at hknown ⊢
                have hrendered := @ih tail fuel turns
                  (by omega) (by omega) (by omega) hknown
                rw [Format.renderAll_closeBrace]
                exact hrendered.pair rfl
              · rw [hrefused]
                exact .refused (not_plainAtoms rfl _) hkind
            · have hc : Format.isBrace c = false := by
                simp [Format.isBrace, hopen, hclose]
              have hrendered := @ih rest fuel (turns + 1)
                (by omega) (by omega) (by omega) hknown
              rw [Format.renderAll_cons rt args expandSpec turns rest hc]
              exact hrendered.char hc

/-- What the variables say for a placeholder. -/
def textOf (vars : PyVal) (name : String) : List Char :=
  match vars.get name .none with
  | .ok (.str text) => text.toList
  | _ => []

/-- Every placeholder of the template is a variable. -/
def Covered (vars : PyVal) (atoms : List Atom) : Prop :=
  ∀ name ∈ groupNames atoms, ∃ text, vars.get name .none = .ok (.str text)

theorem lookup_of_covered {fields : List (String × PyVal)} {name text : String}
    (h : (PyVal.ofFields fields).get name .none = .ok (.str text)) :
    fields.lookup name = some (.str (String.ofList (textOf (PyVal.ofFields fields) name))) := by
  have htext : textOf (PyVal.ofFields fields) name = text.toList := by
    rw [textOf, h]
  rw [htext, String.ofList_toList]
  rw [PyVal.get_ofFields] at h
  cases hlookup : fields.lookup name with
  | none =>
      rw [hlookup] at h
      cases h
  | some value =>
      rw [hlookup] at h
      exact congrArg some (Except.ok.inj h)

/-- The identifiers of the interpreter hold no markup and start with no digit. -/
def PlainIdentifiers (rt : Runtime) : Prop :=
  ∀ name, rt.isIdentifier name = true → Format.PlainName name.toList

/-- The announced name of a pattern whose placeholders are all captured: the filled
template if no further brace stands in it, and less than that otherwise. -/
theorem consoleName_of_covered {rt : Runtime} (hident : PlainIdentifiers rt)
    {entries : List (Key × PyVal)} {fields : List (String × PyVal)} {template : PyVal}
    {shell n : String} {atoms : List Atom}
    (htemplate : entries.lookup (.str "console_name") = some template)
    (hcompile : compileGlobPattern rt template = .ok (shell, atoms))
    (hcovered : Covered (.ofFields fields) atoms)
    (hname : consoleName rt (.dict entries) (.ofFields fields) = .ok n) :
    (plainAtoms atoms = true ∧
        n.toList = fill (textOf (.ofFields fields)) (atoms.map piece)) ∨
      (plainAtoms atoms = false ∧
        n.toList.length < (fill (textOf (.ofFields fields)) (atoms.map piece)).length) := by
  obtain ⟨s, rfl, rfl, hidentifiers, -⟩ := compileGlobPattern_eq_ok hcompile
  have hknown : Known ⟨false, fields⟩ (textOf (.ofFields fields))
      (atomsFrom s.toList.length s.toList) := by
    intro name hmem
    obtain ⟨text, htext⟩ := hcovered name hmem
    exact ⟨hident name (hidentifiers name hmem), lookup_of_covered htext⟩
  have hrendered : Rendered (atomsFrom s.toList.length s.toList)
      (fill (textOf (.ofFields fields)) ((atomsFrom s.toList.length s.toList).map piece))
      (Format.renderAll rt ⟨false, fields⟩ (Format.render rt ⟨false, fields⟩ 1)
        s.toList.length s.toList) :=
    rendered_of_template rfl (Nat.le_refl _) (Nat.le_refl _) (Nat.le_refl _) hknown
  obtain ⟨default, -, hname⟩ := bind_eq_ok.mp hname
  obtain ⟨found, hfound, hname⟩ := bind_eq_ok.mp hname
  rw [PyVal.get_dict, htemplate] at hfound
  obtain rfl := (Except.ok.inj hfound).symm
  have hformat : Format.formatStar rt (.str s) (.ofFields fields) =
      (Format.renderAll rt ⟨false, fields⟩ (Format.render rt ⟨false, fields⟩ 1)
        s.toList.length s.toList).map String.ofList := by
    rw [Format.formatStar, PyVal.kwargs_ofFields]
    rfl
  rw [Option.getD_some, hformat] at hname
  generalize Format.renderAll rt ⟨false, fields⟩ (Format.render rt ⟨false, fields⟩ 1)
    s.toList.length s.toList = outcome at hrendered hname
  cases hrendered with
  | whole hplain =>
      rcases onKeyError_eq_ok.mp hname with hok | ⟨e, herror, -⟩
      · cases hok
        exact .inl ⟨hplain, String.toList_ofList ..⟩
      · cases herror
  | shorter hplain hlength =>
      rcases onKeyError_eq_ok.mp hname with hok | ⟨e, herror, -⟩
      · cases hok
        exact .inr ⟨hplain, by rwa [String.toList_ofList]⟩
      · cases herror
  | refused hplain hkind =>
      rcases onKeyError_eq_ok.mp hname with hok | ⟨e, herror, hkey, -⟩
      · cases hok
      · cases herror
        exact absurd hkey hkind

/-- `match_socket` answers with a pattern and what its `socket_glob` has captured. -/
structure SocketMatch (cfg : PyVal) (path : String) (pat vars pats : PyVal)
    (items : List PyVal) : Prop where
  explicit : ∃ consoles entries, cfg.get "consoles" .emptyDict = .ok consoles ∧
    consoles.items = .ok entries ∧ matchExplicitSocket (.str path) entries = .ok none
  patterns : cfg.get "console_patterns" .emptyList = .ok pats
  list : pats.iter = .ok items
  found : matchSocketPattern (.str path) items = .ok (some (pat, vars))

theorem SocketMatch.matchSocket {cfg pat vars pats : PyVal} {path : String} {items : List PyVal}
    (h : SocketMatch cfg path pat vars pats items) :
    matchSocket cfg (.str path) = .ok (some (pat, vars)) := by
  obtain ⟨consoles, entries, hconsoles, hentries, hexplicit⟩ := h.explicit
  simp [ConsoleConfigStore.matchSocket, hconsoles, hentries, hexplicit, h.patterns, h.list, h.found,
    bind, Except.bind]

/-- What is captured are texts that a placeholder of a name can hold. -/
theorem SocketMatch.captured {cfg pat vars pats : PyVal} {path : String} {items : List PyVal}
    (h : SocketMatch cfg path pat vars pats items) :
    ∃ values, vars = groupdict values ∧
      ∀ entry ∈ values, entry.2 ≠ [] ∧ ∀ c ∈ entry.2, inValue c = true := by
  obtain ⟨-, shell, regex, -, -, hglob⟩ := matchSocketPattern_spec h.found
  obtain ⟨atoms, values, -, hmatch, rfl⟩ := matchGlobPattern_spec hglob
  rw [matchAtoms_eq_readBack] at hmatch
  exact ⟨values, rfl, value_of_reads (reads_of_readBack hmatch)⟩

theorem groupdict_eq_ofFields (values : List (String × List Char)) :
    groupdict values =
      .ofFields (values.map fun entry => (entry.1, .str (String.ofList entry.2))) := rfl

theorem get_groupdict (values : List (String × List Char)) (name : String) (default : PyVal) :
    (groupdict values).get name default =
      .ok (((values.lookup name).map fun text => .str (String.ofList text)).getD default) := by
  rw [groupdict_eq_ofFields, PyVal.get_ofFields]
  congr 2
  induction values with
  | nil => rfl
  | cons entry rest ih =>
      rw [List.map_cons, List.lookup_cons, List.lookup_cons]
      split
      · rfl
      · exact ih

theorem textOf_groupdict {values : List (String × List Char)} {name : String} {text : List Char}
    (h : values.lookup name = some text) : textOf (groupdict values) name = text := by
  rw [textOf, get_groupdict, h]
  exact String.toList_ofList ..

/-- The name leads back to the pattern and to the values its socket has given. -/
def Recovers (rt : Runtime) (cfg pat vars : PyVal) (atoms : List Atom) (n : String) : Prop :=
  ∃ vars', matchConsoleName cfg n = .ok (some (pat, vars')) ∧
    (∀ name ∈ groupNames atoms, ∀ default, vars'.get name default = vars.get name default) ∧
    ∀ principal text, Format.formatStar rt principal vars' = .ok text →
      ACLResolver.resolvePrincipal rt vars principal = .ok text

/-- Nothing stands in the way of the name: no brace outside the placeholders, no
placeholder that the socket does not give, no reading of the name that gives an
earlier placeholder more, and no earlier pattern that fits it. -/
structure Recoverable (cfg pat vars : PyVal) (atoms : List Atom) (n : String) : Prop where
  plain : plainAtoms atoms = true
  covered : Covered vars atoms
  greedy : ∀ other, Reads inValue lineEnd (atoms.map piece) n.toList other →
    ¬ Precedes other (assign (textOf vars) (atoms.map piece))
  first : ∃ pats before after, cfg.get "console_patterns" .emptyList = .ok pats ∧
    pats.iter = .ok (before ++ pat :: after) ∧ ∀ earlier ∈ before, PassedOver n earlier

section

variable {rt : Runtime} {data cfg pat vars pats template : PyVal} {path shell n : String}
  {items : List PyVal} {atoms : List Atom}

theorem nameRegex_of_template (hload : precompilePatterns rt data = .ok cfg)
    (hmatch : SocketMatch cfg path pat vars pats items)
    (htemplate : pat.item "console_name" = .ok template)
    (hcompile : compileGlobPattern rt template = .ok (shell, atoms)) :
    ∃ entries, pat = .dict entries ∧ entries.lookup (.str "console_name") = some template ∧
      entries.lookup (.str "_name_regex") = some (.pattern atoms) := by
  obtain ⟨hmem, -⟩ := matchSocketPattern_spec hmatch.found
  cases pat with
  | dict entries =>
      obtain ⟨raw, hcompiled⟩ :=
        compiledPattern_of_mem hload hmatch.patterns hmatch.list hmem
      have hlookup : entries.lookup (.str "console_name") = some template := by
        simp only [PyVal.item] at htemplate
        split at htemplate
        · rename_i found hfound
          rw [hfound, Except.ok.inj htemplate]
        · cases htemplate
      have hraw : raw.lookup (.str "console_name") = some template :=
        (hcompiled.others "console_name" (by decide)).symm.trans hlookup
      obtain ⟨found, hfound, hregex⟩ := hcompiled.name_of_some hraw
      cases hfound.symm.trans hcompile
      exact ⟨entries, rfl, hlookup, hregex⟩
  | none | bool | int | float | str | list | pattern | date => cases htemplate

theorem matchConsoleName_eq_some_iff {vars' : PyVal} :
    matchConsoleName cfg n = .ok (some (pat, vars')) ↔
      ∃ pats before after, cfg.get "console_patterns" .emptyList = .ok pats ∧
        pats.iter = .ok (before ++ pat :: after) ∧ (∀ earlier ∈ before, PassedOver n earlier) ∧
        ∃ atoms values, pat.get "_name_regex" .none = .ok (.pattern atoms) ∧
          matchAtoms atoms n.toList = some values ∧ vars' = groupdict values := by
  constructor
  · intro h
    obtain ⟨pats, hpats, h⟩ := bind_eq_ok.mp h
    obtain ⟨items, hitems, h⟩ := bind_eq_ok.mp h
    obtain ⟨before, after, atoms, values, rfl, hbefore, hfound⟩ :=
      matchNamePattern_eq_some_iff.mp h
    exact ⟨pats, before, after, hpats, hitems, hbefore, atoms, values, hfound⟩
  · rintro ⟨pats, before, after, hpats, hitems, hbefore, atoms, values, hfound⟩
    exact bind_eq_ok.mpr ⟨pats, hpats, bind_eq_ok.mpr ⟨_, hitems,
      matchNamePattern_eq_some_iff.mpr ⟨before, after, atoms, values, rfl, hbefore, hfound⟩⟩⟩

/-- Values read back as the socket gave them are the assignment of its variables. -/
theorem assign_of_same {values : List (String × List Char)} (hnodup : (groupNames atoms).Nodup)
    (hnames : values.map Prod.fst = groupNames atoms)
    (hsame : ∀ name ∈ groupNames atoms, ∀ default,
      (groupdict values).get name default = vars.get name default) :
    Covered vars atoms ∧ values = assign (textOf vars) (atoms.map piece) := by
  have hnodup' : (values.map Prod.fst).Nodup := hnames ▸ hnodup
  have hlookup : ∀ entry ∈ values, values.lookup entry.1 = some entry.2 := fun entry hentry =>
    Library.Dict.get?_eq_some_iff (d := ⟨values, hnodup'⟩).mpr hentry
  have hmem : ∀ entry ∈ values, entry.1 ∈ groupNames atoms := fun entry hentry =>
    hnames ▸ List.mem_map_of_mem hentry
  constructor
  · intro name hname
    rw [← hnames] at hname
    obtain ⟨entry, hentry, rfl⟩ := List.mem_map.mp hname
    refine ⟨String.ofList entry.2, ?_⟩
    rw [← hsame entry.1 (hmem entry hentry), get_groupdict, hlookup entry hentry]
    rfl
  · refine eq_assign (hnames.trans (names_map_piece atoms).symm) fun entry hentry => ?_
    have htext : textOf vars entry.1 = textOf (groupdict values) entry.1 := by
      rw [textOf, textOf, hsame entry.1 (hmem entry hentry)]
    rw [htext, textOf_groupdict (hlookup entry hentry)]

/-- Principals filled in from the assignment are those the variables denote. -/
theorem resolves_of_assign {fields : List (String × PyVal)}
    (hcovered : Covered (.ofFields fields) atoms) {principal : PyVal} {text : String}
    (h : Format.formatStar rt principal
      (groupdict (assign (textOf (.ofFields fields)) (atoms.map piece))) = .ok text) :
    ACLResolver.resolvePrincipal rt (.ofFields fields) principal = .ok text := by
  have hformat : Format.formatStar rt principal (.ofFields fields) = .ok text := by
    cases principal with
    | str s =>
        obtain ⟨filled, hfilled, h⟩ := bind_eq_ok.mp h
        rw [groupdict_eq_ofFields, PyVal.kwargs_ofFields] at hfilled
        cases hfilled
        refine bind_eq_ok.mpr ⟨fields, PyVal.kwargs_ofFields fields, Format.format_extends ?_ h⟩
        intro name value hvalue
        have hmem : name ∈ groupNames atoms := by
          have hname := List.mem_map_of_mem (f := Prod.fst) (Library.mem_of_lookup hvalue)
          rw [List.map_map, assign, List.map_map, names_map_piece] at hname
          simpa [Function.comp] using hname
        obtain ⟨found, hfound⟩ := hcovered name hmem
        have hget := get_groupdict (assign (textOf (.ofFields fields)) (atoms.map piece)) name .none
        rw [lookup_assign (by rwa [names_map_piece]), groupdict_eq_ofFields, PyVal.get_ofFields,
          hvalue] at hget
        rw [lookup_of_covered hfound]
        exact congrArg some (Except.ok.inj hget).symm
    | none | bool | int | float | list | dict | pattern | date => cases h
  rw [ACLResolver.resolvePrincipal, hformat]
  rfl

/-- What the claim on a pattern and a name comes down to, for a name that is the
filled template. -/
theorem recovers_of_recoverable {fields : List (String × PyVal)}
    (hregex : pat.get "_name_regex" .none = .ok (.pattern atoms))
    (hvalues : ∀ name ∈ groupNames atoms, textOf (.ofFields fields) name ≠ [] ∧
      ∀ c ∈ textOf (.ofFields fields) name, inValue c = true)
    (hfilled : n.toList = fill (textOf (.ofFields fields)) (atoms.map piece))
    (h : Recoverable cfg pat (.ofFields fields) atoms n) :
    Recovers rt cfg pat (.ofFields fields) atoms n := by
  have hreads : Reads inValue lineEnd (atoms.map piece) n.toList
      (assign (textOf (.ofFields fields)) (atoms.map piece)) := by
    rw [hfilled]
    exact reads_fill rfl (by rwa [names_map_piece])
  have hread : matchAtoms atoms n.toList =
      some (assign (textOf (.ofFields fields)) (atoms.map piece)) := by
    rw [matchAtoms_eq_readBack]
    exact readBack_eq_some_iff.mpr ⟨hreads, h.greedy⟩
  obtain ⟨pats, before, after, hpats, hitems, hbefore⟩ := h.first
  refine ⟨_, matchConsoleName_eq_some_iff.mpr
    ⟨pats, before, after, hpats, hitems, hbefore, atoms, _, hregex, hread, rfl⟩, ?_, ?_⟩
  · intro name hname default
    obtain ⟨text, htext⟩ := h.covered name hname
    rw [get_groupdict, lookup_assign (by rwa [names_map_piece]), PyVal.get_ofFields,
      lookup_of_covered htext]
    rfl
  · intro principal text htext
    exact resolves_of_assign h.covered htext

/-- An announced name leads back to the pattern and the values of its socket
exactly when it is recoverable. -/
theorem recovers_iff (hident : PlainIdentifiers rt) (hload : precompilePatterns rt data = .ok cfg)
    (hmatch : SocketMatch cfg path pat vars pats items)
    (htemplate : pat.item "console_name" = .ok template)
    (hcompile : compileGlobPattern rt template = .ok (shell, atoms))
    (hname : consoleName rt pat vars = .ok n) :
    Recovers rt cfg pat vars atoms n ↔ Recoverable cfg pat vars atoms n := by
  obtain ⟨entries, rfl, hlookup, hregex⟩ :=
    nameRegex_of_template hload hmatch htemplate hcompile
  obtain ⟨captured, rfl, hcaptured⟩ := hmatch.captured
  rw [groupdict_eq_ofFields] at hname ⊢
  have hget : (PyVal.dict entries).get "_name_regex" .none = .ok (.pattern atoms) := by
    rw [PyVal.get_dict, hregex]
    rfl
  constructor
  · rintro ⟨vars', hfound, hsame, -⟩
    obtain ⟨pats, before, after, hpats, hitems, hbefore, atoms', values, hregex', hread, rfl⟩ :=
      matchConsoleName_eq_some_iff.mp hfound
    rw [hget] at hregex'
    cases hregex'
    rw [matchAtoms_eq_readBack] at hread
    obtain ⟨hreads, hgreedy⟩ := readBack_eq_some_iff.mp hread
    obtain ⟨-, -, -, -, hnodup⟩ := compileGlobPattern_eq_ok hcompile
    obtain ⟨hcovered, rfl⟩ := assign_of_same hnodup
      ((names_of_reads hreads).trans (names_map_piece atoms)) hsame
    refine ⟨?_, hcovered, hgreedy, pats, before, after, hpats, hitems, hbefore⟩
    -- a name shorter than the filled template cannot be read as one
    rcases consoleName_of_covered hident hlookup hcompile hcovered hname with
      ⟨hplain, -⟩ | ⟨-, hshorter⟩
    · exact hplain
    · obtain ⟨tail, -, heq⟩ := eq_fill_of_reads hreads
      have hlength := congrArg List.length heq
      rw [List.length_append] at hlength
      omega
  · intro h
    refine recovers_of_recoverable hget ?_ ?_ h
    · intro name hmem
      obtain ⟨text, htext⟩ := h.covered name hmem
      rw [← groupdict_eq_ofFields] at htext ⊢
      cases hfound : captured.lookup name with
      | none =>
          rw [get_groupdict, hfound] at htext
          cases htext
      | some value =>
          rw [textOf_groupdict hfound]
          exact hcaptured _ (Library.mem_of_lookup hfound)
    · rcases consoleName_of_covered hident hlookup hcompile h.covered hname with
        ⟨-, hfilled⟩ | ⟨hbraces, -⟩
      · exact hfilled
      · rw [h.plain] at hbraces
        cases hbraces

end

theorem not_isMarkup_of_isAlphanum {c : Char} (h : (c == '_' || c.isAlphanum) = true) :
    Format.isMarkup c = false := by
  by_contra hmarkup
  simp only [Format.isMarkup, Bool.not_eq_false, Bool.or_eq_true, beq_iff_eq] at hmarkup
  rcases hmarkup with ((((rfl | rfl) | rfl) | rfl) | rfl) | rfl <;> exact absurd h (by decide)

theorem plainIdentifiers_plain : PlainIdentifiers .plain := by
  intro name hname
  have hzeros : ∀ base ∈ Text.decimalZeros, base = 0x30 ∨ 0x660 ≤ base := by decide
  simp only [Runtime.plain] at hname
  cases hchars : name.toList with
  | nil =>
      rw [hchars] at hname
      cases hname
  | cons c rest =>
      rw [hchars] at hname
      simp only [Bool.and_eq_true, List.all_eq_true] at hname
      obtain ⟨hc, hrest⟩ := hname
      have hhead : (c == '_' || c.isAlphanum) = true := by
        rw [Char.isAlphanum]
        rw [Bool.or_eq_true] at hc
        rcases hc with hc | hc <;> simp [hc]
      refine ⟨List.cons_ne_nil c rest, ?_, ?_⟩
      · intro d hd
        rcases List.mem_cons.mp hd with rfl | hd
        · exact not_isMarkup_of_isAlphanum hhead
        · exact not_isMarkup_of_isAlphanum (hrest d hd)
      · have hrange : 65 ≤ c.toNat ∧ c.toNat ≤ 122 := by
          delta Char.isAlpha Char.isUpper Char.isLower at hc
          simp only [Bool.or_eq_true, beq_iff_eq, Bool.and_eq_true, decide_eq_true_eq] at hc
          rcases hc with rfl | hc
          · decide
          · simp only [UInt32.le_iff_toNat_le] at hc
            have hletters : (65 ≤ c.toNat ∧ c.toNat ≤ 90) ∨ (97 ≤ c.toNat ∧ c.toNat ≤ 122) := hc
            omega
        have hnone : Text.decimalZeros.find?
            (fun base => base ≤ c.toNat && c.toNat < base + 10) = none := by
          rw [List.find?_eq_none]
          intro base hbase
          have hbound := hzeros base hbase
          simp only [Bool.and_eq_true, decide_eq_true_eq, not_and]
          omega
        simp only [List.head?_cons, Option.bind_some, Text.decimal?, hnone, Option.map_none]

def labPatterns : PyVal := .ofFields [("console_patterns", .list [.ofFields [
  ("socket_glob", .str "/run/vnctlsd/vm-{name}.sock"), ("console_name", .str "vm-{name}"),
  ("type", .str "qemu_unix"), ("rw", .list [.str "{name}"])]])]

theorem labPatterns_matched :
    ∃ cfg pat vars pats items template shell atoms,
      precompilePatterns .plain labPatterns = .ok cfg ∧
      SocketMatch cfg "/run/vnctlsd/vm-lab01.sock" pat vars pats items ∧
      pat.item "console_name" = .ok template ∧
      compileGlobPattern .plain template = .ok (shell, atoms) ∧
      consoleName .plain pat vars = .ok "vm-lab01" :=
  ⟨_, _, _, _, _, _, _, _, rfl, ⟨⟨_, _, rfl, rfl, rfl⟩, rfl, rfl, rfl⟩, rfl, rfl, by decide⟩

theorem recovers_iff_lab :
    ∃ cfg pat vars atoms, precompilePatterns .plain labPatterns = .ok cfg ∧
      (Recovers .plain cfg pat vars atoms "vm-lab01" ↔
        Recoverable cfg pat vars atoms "vm-lab01") := by
  obtain ⟨cfg, pat, vars, pats, items, template, shell, atoms, hload, hmatch, htemplate, hcompile,
    hname⟩ := labPatterns_matched
  exact ⟨cfg, pat, vars, atoms, hload,
    recovers_iff plainIdentifiers_plain hload hmatch htemplate hcompile hname⟩

def ownedPatterns : PyVal := .ofFields [("console_patterns", .list [.ofFields [
  ("socket_glob", .str "/run/vnctlsd/{owner}_{vm}.sock"), ("console_name", .str "{owner}-{vm}"),
  ("type", .str "qemu_unix"), ("rw", .list [.str "{owner}"])]])]

def overlappingPatterns : PyVal := .ofFields [("console_patterns", .list [
  .ofFields [("console_name", .str "vm-{host}"), ("type", .str "exec"),
    ("rw", .list [.str "admins"])],
  .ofFields [("socket_glob", .str "/run/vnctlsd/{name}.sock"), ("console_name", .str "vm-{name}"),
    ("type", .str "qemu_unix"), ("rw", .list [.str "{name}"])]])]

def foundType : Py (Option (PyVal × PyVal)) → Py PyVal
  | .ok (some found) => found.1.get "type" .none
  | .ok none => .ok .none
  | .error e => .error e

/-- alice's socket `web-1` is announced as alice-web-1, and whoever attaches is
checked against the owner alice-web; the name of a socket of the second pattern
leads to the first one, which fits it too. -/
theorem announced_misread :
    (∃ cfg pat vars vars' pats items template shell atoms,
      precompilePatterns .plain ownedPatterns = .ok cfg ∧
      SocketMatch cfg "/run/vnctlsd/alice_web-1.sock" pat vars pats items ∧
      pat.item "console_name" = .ok template ∧
      compileGlobPattern .plain template = .ok (shell, atoms) ∧
      consoleName .plain pat vars = .ok "alice-web-1" ∧
      explicitConsole cfg "alice-web-1" = .ok .none ∧
      matchConsoleName cfg "alice-web-1" = .ok (some (pat, vars')) ∧
      ACLResolver.resolvePrincipal .plain vars (.str "{owner}") = .ok "alice" ∧
      ACLResolver.resolvePrincipal .plain vars' (.str "{owner}") = .ok "alice-web" ∧
      ¬ Recovers .plain cfg pat vars atoms "alice-web-1") ∧
    ∃ cfg pat vars pats items template shell atoms,
      precompilePatterns .plain overlappingPatterns = .ok cfg ∧
      SocketMatch cfg "/run/vnctlsd/lab01.sock" pat vars pats items ∧
      pat.item "console_name" = .ok template ∧
      compileGlobPattern .plain template = .ok (shell, atoms) ∧
      consoleName .plain pat vars = .ok "vm-lab01" ∧
      explicitConsole cfg "vm-lab01" = .ok .none ∧
      ¬ Recovers .plain cfg pat vars atoms "vm-lab01" := by
  constructor
  · refine ⟨_, _, _, _, _, _, _, _, _, rfl, ⟨⟨_, _, rfl, rfl, rfl⟩, rfl, rfl, rfl⟩, rfl, rfl,
      by decide, rfl, rfl, by decide, by decide, ?_⟩
    rintro ⟨vars', hfound, -, hresolves⟩
    cases hfound
    exact absurd (hresolves (.str "{owner}") "alice-web" (by decide)) (by decide)
  · refine ⟨_, _, _, _, _, _, _, _, rfl, ⟨⟨_, _, rfl, rfl, rfl⟩, rfl, rfl, rfl⟩, rfl, rfl,
      by decide, rfl, ?_⟩
    rintro ⟨vars', hfound, -, -⟩
    have htype := congrArg (fun found => (foundType found).map (PyVal.eqStr · "exec")) hfound
    exact absurd (Except.ok.inj htype) (by decide)

end Vnctlsd.ConsoleNames
