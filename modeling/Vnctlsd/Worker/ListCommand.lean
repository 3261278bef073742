import Vnctlsd.Library.Dict
import Vnctlsd.Worker.ManagementCommand

/-! The `list` command of an authenticated session: the explicit consoles and the
live hubs, each with the level the user has. -/
namespace Vnctlsd.Worker.ListCommand
open Vnctlsd.Library Vnctlsd.Python ConsoleConfigStore UserMapStore ACLResolver
open ConsoleCommand ManagementCommand

/-- The hubs that are not done, with the number of their clients. -/
abbrev Hubs := Dict Key Nat

/-- A live hub without a definition is listed with an empty one. -/
def allConsoles (consoles : List (Key × PyVal)) (hubs : Hubs) : List (Key × PyVal) :=
  consoles ++ (hubs.keys.filter fun name => (consoles.lookup name).isNone).map
    fun name => (name, .emptyDict)

def comparable : Key → Key → Bool
  | .str _, .str _ => true
  | .int _, .int _ | .int _, .float _ | .float _, .int _ | .float _, .float _ => true
  | .date left _, .date right _ => left == right
  | _, _ => false

/-- The order of the names; `numLe` is the interpreter's order of numbers and of dates. -/
def nameLe (numLe : Key → Key → Bool) : Key → Key → Bool
  | .str left, .str right => decide (left ≤ right)
  | left, right => numLe left right

/-- `sorted(all_consoles.items())`: the names are distinct, so they decide. -/
def sortItems (numLe : Key → Key → Bool) (items : List (Key × PyVal)) :
    Py (List (Key × PyVal)) :=
  if items.Pairwise (fun left right => comparable left.1 right.1 = true) then
    .ok (items.mergeSort fun left right => nameLe numLe left.1 right.1)
  else raise .typeError "'<' not supported between instances of these types"

structure Row where
  name : Key
  clients : Option Nat
  level : Level
  deriving DecidableEq

/-- `{cname:<30}` takes no `None`. -/
def printable : Key → Bool
  | .str _ | .int _ | .float _ | .date _ _ => true
  | .none | .pattern _ => false

def row (rt : Runtime) (userMap : PyVal) (username : String) (hubs : Hubs)
    (entry : Key × PyVal) : Py (Option Row) := do
  match ← resolveAccess rt userMap username entry.2 .emptyDict with
  | none => pure none
  | some level =>
      if printable entry.1 then pure (some ⟨entry.1, hubs.get? entry.1, level⟩)
      else raise .typeError "unsupported format string passed to NoneType.__format__"

def rows (rt : Runtime) (userMap : PyVal) (username : String) (hubs : Hubs) :
    List (Key × PyVal) → Py (List Row)
  | [] => .ok []
  | entry :: rest => do
      let first ← row rt userMap username hubs entry
      let others ← rows rt userMap username hubs rest
      pure (first.toList ++ others)

inductive Listing where
  | noConsoles
  | noAccessible
  | shown (rows : List Row)
  deriving DecidableEq

def listCommand (rt : Runtime) (numLe : Key → Key → Bool) (userMap cfg : PyVal)
    (username : String) (hubs : Hubs) : Py Listing := do
  let consoles ← (← cfg.get "consoles" .emptyDict).items
  let all := allConsoles consoles hubs
  if all.isEmpty then return .noConsoles
  let lines ← rows rt userMap username hubs (← sortItems numLe all)
  pure (if lines.isEmpty then .noAccessible else .shown lines)

def levelText : Level → String
  | .readOnly => "read_only"
  | .readWrite => "read_write"

def padded (text : String) : String :=
  text ++ String.ofList (List.replicate (30 - text.length) ' ')

/-- For a date the width is a `strftime` format without any directive. -/
def nameText : Key → String
  | .str s => padded s
  | .int i => padded (toString i)
  | .float repr => padded repr
  | .date _ _ => "<30"
  | .none | .pattern _ => ""

def Row.text (row : Row) : String :=
  let name := nameText row.name
  let active := if row.clients.isSome then "live" else "idle"
  let clients := row.clients.getD 0
  let level := levelText row.level
  s!"  {name} [{active}]  {clients} client(s)  [{level}]\r\n"

def Listing.text : Listing → String
  | .noConsoles => "No consoles defined.\r\n"
  | .noAccessible => "No accessible consoles.\r\n"
  | .shown rows => String.join (rows.map Row.text)

def Listing.rows : Listing → List Row
  | .noConsoles | .noAccessible => []
  | .shown rows => rows

theorem mem_rows_iff {rt : Runtime} {userMap : PyVal} {username : String} {hubs : Hubs}
    {items : List (Key × PyVal)} {lines : List Row}
    (h : rows rt userMap username hubs items = .ok lines) (line : Row) :
    line ∈ lines ↔ ∃ entry ∈ items, row rt userMap username hubs entry = .ok (some line) := by
  induction items generalizing lines with
  | nil =>
      cases h
      simp
  | cons entry rest ih =>
      obtain ⟨first, hfirst, h⟩ := bind_eq_ok.mp h
      obtain ⟨others, hothers, h⟩ := bind_eq_ok.mp h
      cases h
      rw [List.mem_append, ih hothers]
      simp [hfirst]

theorem row_eq_some_iff {rt : Runtime} {userMap : PyVal} {username : String} {hubs : Hubs}
    {entry : Key × PyVal} {line : Row} :
    row rt userMap username hubs entry = .ok (some line) ↔
      resolveAccess rt userMap username entry.2 .emptyDict = .ok (some line.level) ∧
        printable entry.1 = true ∧ line.name = entry.1 ∧ line.clients = hubs.get? entry.1 := by
  constructor
  · intro h
    obtain ⟨level, hlevel, h⟩ := bind_eq_ok.mp h
    cases level with
    | none => cases h
    | some level =>
        cases hprint : printable entry.1 with
        | false => simp [hprint, raise] at h
        | true =>
            rw [hprint] at h
            cases h
            exact ⟨hlevel, rfl, rfl, rfl⟩
  · rintro ⟨hlevel, hprint, hname, hclients⟩
    obtain ⟨name, clients, level⟩ := line
    subst hname hclients
    simp [row, hlevel, hprint, bind, Except.bind, pure, Except.pure]

/-- The decision on an entry returns, and its name can be printed where it is
granted. -/
def EntryListable (rt : Runtime) (userMap : PyVal) (username : String)
    (entry : Key × PyVal) : Prop :=
  ∃ level, resolveAccess rt userMap username entry.2 .emptyDict = .ok level ∧
    (level.isSome = true → printable entry.1 = true)

theorem row_returns_iff {rt : Runtime} {userMap : PyVal} {username : String} {hubs : Hubs}
    {entry : Key × PyVal} :
    (∃ line, row rt userMap username hubs entry = .ok line) ↔
      EntryListable rt userMap username entry := by
  constructor
  · rintro ⟨line, h⟩
    obtain ⟨level, hlevel, h⟩ := bind_eq_ok.mp h
    refine ⟨level, hlevel, fun hsome => ?_⟩
    obtain ⟨granted, rfl⟩ := Option.isSome_iff_exists.mp hsome
    by_contra hprint
    simp [hprint, raise] at h
  · rintro ⟨level, hlevel, hprint⟩
    cases level with
    | none => exact ⟨none, by simp [row, hlevel, bind, Except.bind, pure, Except.pure]⟩
    | some level =>
        exact ⟨some ⟨entry.1, hubs.get? entry.1, level⟩,
          row_eq_some_iff.mpr ⟨hlevel, hprint rfl, rfl, rfl⟩⟩

theorem rows_returns_iff {rt : Runtime} {userMap : PyVal} {username : String} {hubs : Hubs}
    {items : List (Key × PyVal)} :
    (∃ lines, rows rt userMap username hubs items = .ok lines) ↔
      ∀ entry ∈ items, EntryListable rt userMap username entry := by
  induction items with
  | nil => exact ⟨fun _ _ hmem => absurd hmem List.not_mem_nil, fun _ => ⟨[], rfl⟩⟩
  | cons entry rest ih =>
      rw [List.forall_mem_cons, ← ih]
      constructor
      · rintro ⟨lines, h⟩
        obtain ⟨first, hfirst, h⟩ := bind_eq_ok.mp h
        obtain ⟨others, hothers, -⟩ := bind_eq_ok.mp h
        exact ⟨row_returns_iff.mp ⟨first, hfirst⟩, others, hothers⟩
      · rintro ⟨hentry, others, hothers⟩
        have hrow : ∃ line, row rt userMap username hubs entry = .ok line :=
          row_returns_iff.mpr hentry
        obtain ⟨first, hfirst⟩ := hrow
        exact ⟨first.toList ++ others, by simp [rows, hfirst, hothers, bind, Except.bind, pure,
          Except.pure]⟩

theorem sortItems_eq_ok_iff {numLe : Key → Key → Bool} {items sorted : List (Key × PyVal)} :
    sortItems numLe items = .ok sorted ↔
      items.Pairwise (fun left right => comparable left.1 right.1 = true) ∧
        items.mergeSort (fun left right => nameLe numLe left.1 right.1) = sorted := by
  unfold sortItems
  split
  · rename_i hpairwise
    simp [hpairwise]
  · rename_i hpairwise
    simp [hpairwise, raise]

theorem mem_of_sortItems {numLe : Key → Key → Bool} {items sorted : List (Key × PyVal)}
    (h : sortItems numLe items = .ok sorted) (entry : Key × PyVal) :
    entry ∈ sorted ↔ entry ∈ items := by
  obtain ⟨-, rfl⟩ := sortItems_eq_ok_iff.mp h
  exact List.mem_mergeSort

/-- The listing does not raise: the names can be compared, and every entry can be
listed. -/
structure Listable (rt : Runtime) (userMap : PyVal) (username : String)
    (all : List (Key × PyVal)) : Prop where
  comparable : all.Pairwise fun left right => comparable left.1 right.1 = true
  entries : ∀ entry ∈ all, EntryListable rt userMap username entry

section

variable {rt : Runtime} {numLe : Key → Key → Bool} {userMap cfg : PyVal} {username : String}
  {hubs : Hubs} {consoles : List (Key × PyVal)}

theorem mem_listing_iff (hcfg : cfg.get "consoles" .emptyDict = .ok (.dict consoles))
    {listing : Listing} (h : listCommand rt numLe userMap cfg username hubs = .ok listing)
    (line : Row) :
    line ∈ listing.rows ↔ ∃ entry ∈ allConsoles consoles hubs,
      row rt userMap username hubs entry = .ok (some line) := by
  simp only [listCommand, hcfg, bind, Except.bind, PyVal.items] at h
  cases hempty : (allConsoles consoles hubs).isEmpty with
  | true =>
      rw [hempty] at h
      cases h
      simp [List.isEmpty_iff.mp hempty, Listing.rows]
  | false =>
      rw [hempty] at h
      obtain ⟨sorted, hsorted, h⟩ := bind_eq_ok.mp h
      obtain ⟨lines, hlines, h⟩ := bind_eq_ok.mp h
      have hrows : listing.rows = lines := by
        cases h
        cases lines <;> rfl
      rw [hrows, mem_rows_iff hlines]
      simp only [mem_of_sortItems hsorted]

theorem listCommand_returns_iff (hcfg : cfg.get "consoles" .emptyDict = .ok (.dict consoles)) :
    (∃ listing, listCommand rt numLe userMap cfg username hubs = .ok listing) ↔
      Listable rt userMap username (allConsoles consoles hubs) := by
  simp only [listCommand, hcfg, bind, Except.bind, PyVal.items]
  cases hempty : (allConsoles consoles hubs).isEmpty with
  | true =>
      rw [List.isEmpty_iff.mp hempty]
      exact ⟨fun _ => ⟨.nil, fun _ hmem => absurd hmem List.not_mem_nil⟩, fun _ => ⟨_, rfl⟩⟩
  | false =>
      constructor
      · rintro ⟨listing, h⟩
        obtain ⟨sorted, hsorted, h⟩ := bind_eq_ok.mp h
        obtain ⟨lines, hlines, -⟩ := bind_eq_ok.mp h
        refine ⟨(sortItems_eq_ok_iff.mp hsorted).1, fun entry hmem => ?_⟩
        exact rows_returns_iff.mp ⟨lines, hlines⟩ entry ((mem_of_sortItems hsorted entry).mpr hmem)
      · rintro ⟨hcomparable, hentries⟩
        have hsorted := sortItems_eq_ok_iff.mpr
          ⟨hcomparable, (rfl : _ = (allConsoles consoles hubs).mergeSort
            fun left right => nameLe numLe left.1 right.1)⟩
        have hrows : ∃ lines, rows rt userMap username hubs _ = .ok lines :=
          rows_returns_iff.mpr fun entry hmem =>
            hentries entry ((mem_of_sortItems hsorted entry).mp hmem)
        obtain ⟨lines, hlines⟩ := hrows
        simp [hsorted, hlines, pure, Except.pure]

end

/-- The listing has a row for the name with this level. -/
def Prints (rt : Runtime) (numLe : Key → Key → Bool) (userMap cfg : PyVal) (username : String)
    (hubs : Hubs) (name : String) (level : Level) : Prop :=
  ∃ listing, listCommand rt numLe userMap cfg username hubs = .ok listing ∧
    ∃ line ∈ listing.rows, line.name = .str name ∧ line.level = level

def isLive (hubs : Hubs) (name : String) : Bool := (hubs.get? (.str name)).isSome

/-- The `console` command grants the level. -/
def Granted (rt : Runtime) (userMap cfg : PyVal) (username : String) (hubs : Hubs)
    (name : String) (level : Level) : Prop :=
  ∃ found, consoleLookup cfg name (isLive hubs name) = .ok (some found) ∧
    decision rt userMap username found = .ok (some level)

def InScope (cfg : PyVal) (hubs : Hubs) (name : String) : Prop :=
  (∃ consoles, cfg.get "consoles" .emptyDict = .ok (.dict consoles) ∧
    (consoles.lookup (.str name)).isSome = true) ∨ isLive hubs name = true

structure Truthful (rt : Runtime) (numLe : Key → Key → Bool) (userMap cfg : PyVal)
    (username : String) (hubs : Hubs) : Prop where
  agrees : ∀ name, InScope cfg hubs name → ∀ level,
    Prints rt numLe userMap cfg username hubs name level ↔
      Granted rt userMap cfg username hubs name level
  denied : ∀ name live, consoleCommand rt userMap cfg username name (isLive hubs name) live =
    .ok .denied → ∀ level, ¬ Prints rt numLe userMap cfg username hubs name level

theorem mem_allConsoles_iff {consoles : List (Key × PyVal)} {hubs : Hubs} {name : Key}
    {defn : PyVal} :
    (name, defn) ∈ allConsoles consoles hubs ↔ (name, defn) ∈ consoles ∨
      (name ∈ hubs.keys ∧ consoles.lookup name = none ∧ defn = .emptyDict) := by
  unfold allConsoles
  rw [List.mem_append, List.mem_map]
  apply or_congr_right
  constructor
  · rintro ⟨other, hmem, heq⟩
    cases heq
    obtain ⟨hkey, hnone⟩ := List.mem_filter.mp hmem
    exact ⟨hkey, Option.isNone_iff_eq_none.mp hnone, rfl⟩
  · rintro ⟨hkey, hnone, rfl⟩
    exact ⟨name, List.mem_filter.mpr ⟨hkey, Option.isNone_iff_eq_none.mpr hnone⟩, rfl⟩

theorem isLive_iff {hubs : Hubs} {name : String} :
    isLive hubs name = true ↔ .str name ∈ hubs.keys := by
  constructor
  · intro h
    obtain ⟨clients, hget⟩ := Option.isSome_iff_exists.mp h
    exact Dict.mem_keys_of_mem (Dict.get?_eq_some_iff.mp hget)
  · intro h
    obtain ⟨clients, hget⟩ := Dict.exists_of_mem_keys h
    exact Option.isSome_iff_exists.mpr ⟨clients, hget⟩

section

variable {rt : Runtime} {numLe : Key → Key → Bool} {userMap cfg : PyVal} {username : String}
  {hubs : Hubs} {consoles : List (Key × PyVal)} {name : String}

theorem prints_iff (hcfg : cfg.get "consoles" .emptyDict = .ok (.dict consoles))
    (hlistable : Listable rt userMap username (allConsoles consoles hubs)) (level : Level) :
    Prints rt numLe userMap cfg username hubs name level ↔
      ∃ defn, (.str name, defn) ∈ allConsoles consoles hubs ∧
        resolveAccess rt userMap username defn .emptyDict = .ok (some level) := by
  have hreturns : ∃ listing, listCommand rt numLe userMap cfg username hubs = .ok listing :=
    (listCommand_returns_iff hcfg).mpr hlistable
  obtain ⟨listing, hlisting⟩ := hreturns
  constructor
  · rintro ⟨other, hother, line, hline, hname, rfl⟩
    rw [hlisting] at hother
    cases hother
    obtain ⟨⟨entryName, defn⟩, hmem, hrow⟩ := (mem_listing_iff hcfg hlisting line).mp hline
    obtain ⟨hlevel, -, hline, -⟩ := row_eq_some_iff.mp hrow
    have hkey : entryName = .str name := hline.symm.trans hname
    rw [hkey] at hmem
    exact ⟨defn, hmem, hlevel⟩
  · rintro ⟨defn, hmem, hlevel⟩
    refine ⟨listing, hlisting, ⟨.str name, hubs.get? (.str name), level⟩, ?_, rfl, rfl⟩
    exact (mem_listing_iff hcfg hlisting _).mpr
      ⟨_, hmem, row_eq_some_iff.mpr ⟨hlevel, rfl, rfl, rfl⟩⟩

theorem explicitConsole_eq (hcfg : cfg.get "consoles" .emptyDict = .ok (.dict consoles)) :
    explicitConsole cfg name = .ok ((consoles.lookup (.str name)).getD .none) := by
  simp [explicitConsole, hcfg, bind, Except.bind]

/-- An explicit definition on which the listing can decide is the one the
`console` command decides on. -/
theorem granted_explicit_iff (hcfg : cfg.get "consoles" .emptyDict = .ok (.dict consoles))
    {defn : PyVal} (hdefn : consoles.lookup (.str name) = some defn) {listed : Option Level}
    (hlisted : resolveAccess rt userMap username defn .emptyDict = .ok listed) (level : Level) :
    Granted rt userMap cfg username hubs name level ↔ listed = some level := by
  have hexplicit : explicitConsole cfg name = .ok defn := by
    rw [explicitConsole_eq hcfg, hdefn, Option.getD_some]
  cases hnone : defn.isNone with
  | false =>
      have hlookup : consoleLookup cfg name (isLive hubs name) =
          .ok (some (defn, .emptyDict)) := by
        simp [consoleLookup, hexplicit, hnone, bind, Except.bind, pure, Except.pure]
      have hdecision : decision rt userMap username (defn, .emptyDict) = .ok listed :=
        resolveAccess_orElse hlisted
      unfold Granted
      rw [hlookup]
      constructor
      · rintro ⟨found, hfound, hlevel⟩
        cases hfound
        rw [hdecision] at hlevel
        exact Except.ok.inj hlevel
      · rintro rfl
        exact ⟨_, rfl, hdecision⟩
  | true =>
      -- a null definition answers nothing, so the user is unknown
      obtain rfl := (PyVal.isNone_eq_true_iff defn).mp hnone
      cases resolveAccess_iff.mp hlisted with
      | unknownUser hunknown =>
          constructor
          · rintro ⟨found, -, hlevel⟩
            rw [decision, resolveAccess_unknown rt _ _ hunknown] at hlevel
            cases hlevel
          · intro h
            cases h
      | byLists _ hrw => cases hrw
      | byRole _ hrw => cases hrw

/-- For a name without a definition of its own, what patterns say about it is what
the user's role says. -/
def PatternGivesRole (rt : Runtime) (userMap cfg : PyVal) (username name : String) : Prop :=
  match matchConsoleName cfg name with
  | .ok none => True
  | .ok (some found) => ∀ level, decision rt userMap username found = .ok (some level) ↔
      resolveAccess rt userMap username .emptyDict .emptyDict = .ok (some level)
  | .error _ => ∀ level,
      resolveAccess rt userMap username .emptyDict .emptyDict ≠ .ok (some level)

theorem patternGivesRole_iff (hcfg : cfg.get "consoles" .emptyDict = .ok (.dict consoles))
    (hdefn : consoles.lookup (.str name) = none) (hlive : isLive hubs name = true) :
    PatternGivesRole rt userMap cfg username name ↔
      ∀ level, resolveAccess rt userMap username .emptyDict .emptyDict = .ok (some level) ↔
        Granted rt userMap cfg username hubs name level := by
  have hexplicit : explicitConsole cfg name = .ok .none := by
    rw [explicitConsole_eq hcfg, hdefn, Option.getD_none]
  unfold PatternGivesRole Granted
  rw [hlive]
  cases hmatch : matchConsoleName cfg name with
  | error e => simp [consoleLookup, hexplicit, hmatch, bind, Except.bind]
  | ok found =>
      cases found with
      | none =>
          simp only [consoleLookup, hexplicit, hmatch, bind, Except.bind, pure, Except.pure,
            PyVal.isNone_none, Bool.not_true, Bool.false_eq_true, if_false, if_true,
            Except.ok.injEq, Option.some.injEq, true_iff, exists_eq_left']
          intro level
          exact Iff.rfl
      | some found =>
          simp only [consoleLookup, hexplicit, hmatch, bind, Except.bind, pure, Except.pure,
            PyVal.isNone_none, Bool.not_true, Bool.false_eq_true, if_false, Except.ok.injEq,
            Option.some.injEq, exists_eq_left']
          apply forall_congr'
          intro level
          exact iff_comm

theorem not_prints_of_not_listable
    (hcfg : cfg.get "consoles" .emptyDict = .ok (.dict consoles))
    (h : ¬ Listable rt userMap username (allConsoles consoles hubs)) (level : Level) :
    ¬ Prints rt numLe userMap cfg username hubs name level := by
  rintro ⟨listing, hlisting, -⟩
  exact h ((listCommand_returns_iff hcfg).mp ⟨listing, hlisting⟩)

/-- Only names in scope are printed. -/
theorem inScope_of_prints (hcfg : cfg.get "consoles" .emptyDict = .ok (.dict consoles))
    {level : Level} (h : Prints rt numLe userMap cfg username hubs name level) :
    InScope cfg hubs name := by
  obtain ⟨listing, hlisting, -⟩ := id h
  have hlistable := (listCommand_returns_iff hcfg).mp ⟨listing, hlisting⟩
  obtain ⟨defn, hmem, -⟩ := (prints_iff hcfg hlistable level).mp h
  rcases mem_allConsoles_iff.mp hmem with hmem | ⟨hkey, -, -⟩
  · refine .inl ⟨consoles, hcfg, ?_⟩
    rw [List.lookup_isSome_iff]
    exact ⟨_, hmem, beq_self_eq_true _⟩
  · exact .inr (isLive_iff.mpr hkey)

theorem prints_explicit_iff (hcfg : cfg.get "consoles" .emptyDict = .ok (.dict consoles))
    (hdistinct : (consoles.map Prod.fst).Nodup)
    (hlistable : Listable rt userMap username (allConsoles consoles hubs)) {defn : PyVal}
    (hdefn : consoles.lookup (.str name) = some defn) (level : Level) :
    Prints rt numLe userMap cfg username hubs name level ↔
      resolveAccess rt userMap username defn .emptyDict = .ok (some level) := by
  have hmem : (.str name, defn) ∈ consoles := mem_of_lookup hdefn
  rw [prints_iff hcfg hlistable level]
  constructor
  · rintro ⟨other, hother, hlevel⟩
    rcases mem_allConsoles_iff.mp hother with hother | ⟨-, hnone, -⟩
    · have hsame := List.inj_on_of_nodup_map hdistinct hother hmem rfl
      cases hsame
      exact hlevel
    · rw [hdefn] at hnone
      cases hnone
  · intro hlevel
    exact ⟨defn, mem_allConsoles_iff.mpr (.inl hmem), hlevel⟩

theorem prints_live_iff (hcfg : cfg.get "consoles" .emptyDict = .ok (.dict consoles))
    (hlistable : Listable rt userMap username (allConsoles consoles hubs))
    (hdefn : consoles.lookup (.str name) = none) (hlive : isLive hubs name = true)
    (level : Level) :
    Prints rt numLe userMap cfg username hubs name level ↔
      resolveAccess rt userMap username .emptyDict .emptyDict = .ok (some level) := by
  rw [prints_iff hcfg hlistable level]
  constructor
  · rintro ⟨defn, hmem, hlevel⟩
    rcases mem_allConsoles_iff.mp hmem with hmem | ⟨-, -, rfl⟩
    · exact absurd rfl (bne_iff_ne.mp (List.lookup_eq_none_iff.mp hdefn _ hmem))
    · exact hlevel
  · intro hlevel
    exact ⟨_, mem_allConsoles_iff.mpr (.inr ⟨isLive_iff.mp hlive, hdefn, rfl⟩), hlevel⟩

theorem exists_consoles_of_prints {level : Level}
    (h : Prints rt numLe userMap cfg username hubs name level) :
    ∃ consoles, cfg.get "consoles" .emptyDict = .ok (.dict consoles) := by
  obtain ⟨listing, hlisting, -⟩ := h
  obtain ⟨found, hfound, hlisting⟩ := bind_eq_ok.mp hlisting
  obtain ⟨consoles, hitems, -⟩ := bind_eq_ok.mp hlisting
  cases found with
  | dict entries => exact ⟨entries, hfound⟩
  | none | bool | int | float | str | list | pattern | date => cases hitems

theorem exists_consoles_of_granted {level : Level}
    (h : Granted rt userMap cfg username hubs name level) :
    ∃ consoles, cfg.get "consoles" .emptyDict = .ok (.dict consoles) := by
  obtain ⟨found, hlookup, -⟩ := h
  obtain ⟨defn, hexplicit, -⟩ := bind_eq_ok.mp hlookup
  obtain ⟨consoles, hconsoles, hdefn⟩ := bind_eq_ok.mp hexplicit
  obtain ⟨entries, rfl⟩ := PyVal.eq_dict_of_get_ok hdefn
  exact ⟨entries, hconsoles⟩

theorem not_granted_of_denied {live : Bool}
    (h : consoleCommand rt userMap cfg username name (isLive hubs name) live = .ok .denied)
    (level : Level) : ¬ Granted rt userMap cfg username hubs name level := by
  rintro ⟨found, hlookup, hlevel⟩
  obtain ⟨other, hother, hdenied⟩ := consoleCommand_denied_iff.mp h
  rw [hlookup] at hother
  cases hother
  rw [hlevel] at hdenied
  cases hdenied

/-- Agreement on the names in scope is all there is to show: only they are
printed. -/
theorem truthful_of_agrees
    (h : ∀ name, InScope cfg hubs name → ∀ level,
      Prints rt numLe userMap cfg username hubs name level ↔
        Granted rt userMap cfg username hubs name level) :
    Truthful rt numLe userMap cfg username hubs := by
  refine ⟨h, ?_⟩
  intro name live hdenied level hprints
  obtain ⟨consoles, hcfg⟩ := exists_consoles_of_prints hprints
  have hgranted := (h name (inScope_of_prints hcfg hprints) level).mp hprints
  exact not_granted_of_denied hdenied level hgranted

end

def DistinctNames (cfg : PyVal) : Prop :=
  ∀ consoles, cfg.get "consoles" .emptyDict = .ok (.dict consoles) →
    (consoles.map Prod.fst).Nodup

def oneHub : Hubs := ⟨[(.str "vm-lab01", 1)], by decide⟩

/-- Machines are left to the roles, and one console is open to all. -/
def openLab : PyVal := .ofFields [
  ("consoles", .ofFields [("lab01", .ofFields [("rw", .list [.str "*"])])]),
  ("console_patterns", .list [.ofFields [("console_name", .str "vm-{name}")]])]

def reservedPattern : PyVal := .ofFields [("console_patterns", .list [.ofFields [
  ("console_name", .str "vm-{name}"), ("rw", .list [.str "admins"])]])]

end Vnctlsd.Worker.ListCommand
