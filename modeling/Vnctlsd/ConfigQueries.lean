import Vnctlsd.PushedSearches

/-! Every lookup on the store that `update` makes of `get_raw`, against the same
lookup on the original store. -/
namespace Vnctlsd.ConfigQueries
open Vnctlsd.Library.Scan Vnctlsd.Python ConsoleConfigStore ConfigPush PushedConfig PushedSearches

/-- The command of that name is not private and holds no private key, or is null. -/
def CommandKept (cfg : PyVal) (action : String) : Prop :=
  ∀ commands, cfg.get "commands" .emptyDict = .ok (.dict commands) →
    ∀ command, commands.lookup (.str action) = some command →
    command = .none ∨ isPrivate action = false ∧ keyed isPublic command = true

def AllCommandsKept (cfg : PyVal) : Prop :=
  ∀ commands, cfg.get "commands" .emptyDict = .ok (.dict commands) →
    ∀ entry ∈ commands, isPublic entry.1 = true

/-- The default console holds no private key, unless it is of another type. -/
def DefaultExecKept (cfg : PyVal) : Prop :=
  ∀ defaults, cfg.get "defaults" .emptyDict = .ok (.dict defaults) →
    ∀ defn, defaults.lookup (.str "console") = some (.dict defn) →
    ((defn.lookup (.str "type")).getD (.str "exec")).eqStr "exec" = true →
    keyed isPublic (.dict defn) = true

def WatchDirKept (cfg : PyVal) : Prop :=
  ∀ validation, cfg.get "socket_validation" .emptyDict = .ok (.dict validation) →
    ∀ dir, validation.lookup (.str "watch_dir") = some dir → keyed isPublic dir = true

/-- Where the global setting counts, it is no dictionary that private keys alone
keep from being empty. -/
def TrustedUidKept (cfg defn : PyVal) : Prop :=
  ∀ validation, cfg.get "socket_validation" .emptyDict = .ok (.dict validation) →
    ∀ own, defn.get "validation" .emptyDict = .ok (.dict own) →
    own.lookup (.str "trusted_uid") = none →
    ∀ setting, validation.lookup (.str "trusted_uid") = some (.dict setting) →
    setting = [] ∨ ∃ entry ∈ setting, isPublic entry.1 = true

section

variable {rt : Runtime} {cfg pushed : PyVal}

theorem getCommand_preserved_iff (h : Pushed rt cfg pushed) (action : String) :
    getCommand pushed action = getCommand cfg action ↔ CommandKept cfg action := by
  rcases section_cases h "commands" (by decide) (by decide) with
    ⟨commands, stripped, hcommands, hcommands', hkeys, hstrip⟩ |
    ⟨value, value', hvalue, hvalue', hother, hother', hraised⟩
  · rw [CommandKept, forall_dict_iff hcommands]
    simp only [getCommand, hcommands, hcommands', bind, Except.bind, PyVal.get_dict,
      Except.ok.injEq]
    cases hkey : isPrivate action with
    | true =>
        rw [lookup_private hkeys hstrip hkey]
        cases commands.lookup (.str action) with
        | none => simp
        | some command => simpa using eq_comm
    | false =>
        rcases lookup_stripEntries hkey hstrip with ⟨hnone, hnone'⟩ |
          ⟨command, command', hcommand, hval, hcommand'⟩
        · simp [hnone, hnone']
        · have hself := strip_eq_self_iff (keyed_of_lookup hkeys hcommand).2
          rw [hval, Except.ok.injEq] at hself
          rw [hcommand, hcommand', Option.getD_some, Option.getD_some, hself]
          constructor
          · rintro hpublic _ ⟨⟩
            exact .inr ⟨rfl, hpublic⟩
          · intro hkept
            rcases hkept command rfl with rfl | ⟨-, hpublic⟩
            · rfl
            · exact hpublic
  · refine ⟨fun _ => forall_dict_of_other hvalue hother, fun _ => ?_⟩
    simp only [getCommand, hvalue, hvalue', bind, Except.bind, get_other hother,
      get_other hother', hraised]

theorem getAllCommands_preserved_iff (h : Pushed rt cfg pushed) :
    getAllCommands pushed = getAllCommands cfg ↔ AllCommandsKept cfg := by
  rcases section_cases h "commands" (by decide) (by decide) with
    ⟨commands, stripped, hcommands, hcommands', hkeys, hstrip⟩ |
    ⟨value, value', hvalue, hvalue', hother, hother', hraised⟩
  · have hnames := keys_stripEntries hstrip
    rw [AllCommandsKept, forall_dict_iff hcommands]
    simp only [getAllCommands, hcommands, hcommands', PyVal.items, bind, Except.bind, pure,
      Except.pure, Except.ok.injEq]
    have hmap : ∀ entries : List (Key × PyVal), (entries.map fun entry => PyVal.ofKey entry.1) =
        (entries.map Prod.fst).map PyVal.ofKey := fun entries => by rw [List.map_map]; rfl
    rw [hmap, hmap, hnames]
    constructor
    · intro hsame entry hentry
      have hlength := congrArg List.length hsame
      rw [List.length_map, List.length_map, List.length_filter_eq_length_iff] at hlength
      exact hlength entry.1 (List.mem_map_of_mem hentry)
    · intro hpublic
      rw [List.filter_eq_self.mpr]
      intro key hkey
      obtain ⟨entry, hentry, rfl⟩ := List.mem_map.mp hkey
      exact hpublic entry hentry
  · refine ⟨fun _ => forall_dict_of_other hvalue hother, fun _ => ?_⟩
    simp only [getAllCommands, hvalue, hvalue', bind, Except.bind, items_other hother,
      items_other hother', hraised]

theorem getWatchDir_preserved_iff (h : Pushed rt cfg pushed) :
    getWatchDir pushed = getWatchDir cfg ↔ WatchDirKept cfg := by
  rcases section_cases h "socket_validation" (by decide) (by decide) with
    ⟨validation, stripped, hvalidation, hvalidation', hkeys, hstrip⟩ |
    ⟨value, value', hvalue, hvalue', hother, hother', hraised⟩
  · have hkey : isPrivate "watch_dir" = false := by decide
    rw [WatchDirKept, forall_dict_iff hvalidation]
    simp only [getWatchDir, hvalidation, hvalidation', bind, Except.bind, PyVal.get_dict,
      Except.ok.injEq]
    rcases lookup_stripEntries hkey hstrip with ⟨hnone, hnone'⟩ | ⟨dir, dir', hdir, hval, hdir'⟩
    · simp [hnone, hnone']
    · have hself := strip_eq_self_iff (keyed_of_lookup hkeys hdir).2
      rw [hval, Except.ok.injEq] at hself
      rw [hdir, hdir', Option.getD_some, Option.getD_some, hself]
      simp only [Option.some.injEq, forall_eq']
  · refine ⟨fun _ => forall_dict_of_other hvalue hother, fun _ => ?_⟩
    simp only [getWatchDir, hvalue, hvalue', bind, Except.bind, get_other hother,
      get_other hother', hraised]

def execOf (defn : PyVal) : Py (Option PyVal) := do
  if !defn.truthy then return none
  let ctype ← defn.get "type" (.str "exec")
  pure (if ctype.eqStr "exec" then some defn else none)

theorem getDefaultExec_eq (cfg : PyVal) : getDefaultExec cfg = (do
    execOf (← (← cfg.get "defaults" .emptyDict).get "console" .none)) := rfl

theorem execOf_dict (entries : List (Key × PyVal)) :
    execOf (.dict entries) =
      .ok (if !entries.isEmpty && ((entries.lookup (.str "type")).getD (.str "exec")).eqStr "exec"
        then some (.dict entries) else none) := by
  cases entries <;> rfl

theorem execOf_strip {value value' : PyVal} (h : strip value = .ok value')
    (hvalue : ∀ entries, value ≠ .dict entries) : execOf value' = execOf value := by
  unfold execOf
  rw [truthy_strip h hvalue, get_other hvalue, get_other (not_dict_strip h hvalue),
    noAttribute_strip h]
  rfl

theorem execOf_dict_preserved_iff {entries stripped : List (Key × PyVal)}
    (hkeys : keyedEntries isString entries = true)
    (hstrip : stripEntries entries = .ok stripped) :
    execOf (.dict stripped) = execOf (.dict entries) ↔
      (((entries.lookup (.str "type")).getD (.str "exec")).eqStr "exec" = true →
        keyed isPublic (.dict entries) = true) := by
  have htype : ((stripped.lookup (.str "type")).getD (.str "exec")).eqStr "exec" =
      ((entries.lookup (.str "type")).getD (.str "exec")).eqStr "exec" := by
    have hpublic : isPrivate "type" = false := by decide
    rcases lookup_stripEntries hpublic hstrip with ⟨hnone, hnone'⟩ |
      ⟨value, value', hvalue, hval, hvalue'⟩
    · rw [hnone, hnone']
    · rw [hvalue, hvalue']
      exact eqStr_strip hval "exec"
  have hself : stripped = entries ↔ keyed isPublic (.dict entries) = true := by
    have hdict : keyed isString (.dict entries) = true := by rwa [keyed]
    rw [← strip_eq_self_iff hdict, ConsoleConfigStore.strip, hstrip]
    simp [bind, Except.bind, pure, Except.pure]
  rw [execOf_dict, execOf_dict, htype, ← hself, Except.ok.injEq]
  cases ((entries.lookup (.str "type")).getD (.str "exec")).eqStr "exec" with
  | false => simp
  | true =>
      cases entries with
      | nil =>
          cases hstrip
          simp
      | cons entry rest =>
          cases stripped with
          | nil => simp
          | cons entry' rest' => simp

theorem getDefaultExec_preserved_iff (h : Pushed rt cfg pushed) :
    getDefaultExec pushed = getDefaultExec cfg ↔ DefaultExecKept cfg := by
  rw [getDefaultExec_eq, getDefaultExec_eq]
  rcases section_cases h "defaults" (by decide) (by decide) with
    ⟨defaults, stripped, hdefaults, hdefaults', hkeys, hstrip⟩ |
    ⟨value, value', hvalue, hvalue', hother, hother', hraised⟩
  · have hkey : isPrivate "console" = false := by decide
    rw [DefaultExecKept, forall_dict_iff hdefaults]
    simp only [hdefaults, hdefaults', bind, Except.bind, PyVal.get_dict]
    rcases lookup_stripEntries hkey hstrip with ⟨hnone, hnone'⟩ |
      ⟨defn, defn', hdefn, hval, hdefn'⟩
    · simp [hnone, hnone']
    · rw [hdefn, hdefn', Option.getD_some, Option.getD_some]
      rcases defn.dict_or_other with ⟨entries, rfl⟩ | hother
      · obtain ⟨entries', hentries', rfl⟩ := strip_dict hval
        have hdefnKeys := (keyed_of_lookup hkeys hdefn).2
        rw [keyed] at hdefnKeys
        rw [execOf_dict_preserved_iff hdefnKeys hentries']
        simp only [Option.some.injEq, PyVal.dict.injEq, forall_eq']
      · rw [execOf_strip hval hother]
        simp only [Option.some.injEq, true_iff]
        exact fun entries heq => absurd heq (hother entries)
  · refine ⟨fun _ => forall_dict_of_other hvalue hother, fun _ => ?_⟩
    simp only [hvalue, hvalue', bind, Except.bind, get_other hother, get_other hother', hraised]

/-- The user id that a setting stands for. -/
def uidFor (rt : Runtime) (passwd : Passwd) (vars uidName : PyVal) : Py (Option Int) := do
  if !uidName.truthy then return none
  let name ← onKeyError (Format.formatStar rt uidName vars) (rt.str uidName)
  match ← getpwnam passwd name with
  | some uid => pure (some (uid : Int))
  | none => pure (Text.int? name)

theorem resolveTrustedUid_eq (rt : Runtime) (passwd : Passwd) (cfg defn vars : PyVal) :
    resolveTrustedUid rt passwd cfg defn vars = (do
      let standIn ← (← cfg.get "socket_validation" .emptyDict).get "trusted_uid" (.str "")
      let uidName ← (← defn.get "validation" .emptyDict).get "trusted_uid" standIn
      uidFor rt passwd vars uidName) := rfl

theorem uidFor_dict (rt : Runtime) (passwd : Passwd) (vars : PyVal)
    (entries : List (Key × PyVal)) :
    uidFor rt passwd vars (.dict entries) =
      if entries.isEmpty then .ok none else PyVal.emptyDict.noAttribute "format" := by
  cases entries <;> rfl

theorem uidFor_strip {value value' : PyVal} (h : strip value = .ok value')
    (hvalue : ∀ entries, value ≠ .dict entries) (rt : Runtime) (passwd : Passwd) (vars : PyVal) :
    uidFor rt passwd vars value' = uidFor rt passwd vars value := by
  cases value with
  | dict entries => exact absurd rfl (hvalue entries)
  | list items =>
      have htruthy := truthy_strip h hvalue
      obtain ⟨items', -, rfl⟩ := strip_list h
      unfold uidFor
      rw [htruthy]
      rfl
  | none | bool | int | float | str | pattern | date =>
      cases h
      rfl

theorem uidFor_dict_preserved_iff {setting stripped : List (Key × PyVal)}
    (hstrip : stripEntries setting = .ok stripped) (rt : Runtime) (passwd : Passwd)
    (vars : PyVal) :
    uidFor rt passwd vars (.dict stripped) = uidFor rt passwd vars (.dict setting) ↔
      (setting = [] ∨ ∃ entry ∈ setting, isPublic entry.1 = true) := by
  have hempty := isEmpty_stripEntries hstrip
  rw [uidFor_dict, uidFor_dict]
  cases setting with
  | nil =>
      cases hstrip
      simp
  | cons entry rest =>
      rw [← List.any_eq_true, ← hempty]
      cases stripped with
      | nil => simp [PyVal.noAttribute, raise]
      | cons entry' rest' => simp

theorem resolveTrustedUid_preserved_iff (h : Pushed rt cfg pushed) (passwd : Passwd)
    (defn vars : PyVal) :
    resolveTrustedUid rt passwd pushed defn vars = resolveTrustedUid rt passwd cfg defn vars ↔
      TrustedUidKept cfg defn := by
  rw [resolveTrustedUid_eq, resolveTrustedUid_eq]
  rcases section_cases h "socket_validation" (by decide) (by decide) with
    ⟨validation, stripped, hvalidation, hvalidation', hkeys, hstrip⟩ |
    ⟨value, value', hvalue, hvalue', hother, hother', hraised⟩
  · have hkey : isPrivate "trusted_uid" = false := by decide
    rw [TrustedUidKept, forall_dict_iff hvalidation]
    simp only [hvalidation, hvalidation', bind, Except.bind, PyVal.get_dict]
    cases hdefn : defn.get "validation" .emptyDict with
    | error e => simp
    | ok own =>
        rcases own.dict_or_other with ⟨own, rfl⟩ | hother
        · rw [forall_dict_iff rfl]
          simp only [PyVal.get_dict]
          cases hown : own.lookup (.str "trusted_uid") with
          | some uidName => simp
          | none =>
              simp only [Option.getD_none, true_implies]
              rcases lookup_stripEntries hkey hstrip with ⟨hnone, hnone'⟩ |
                ⟨setting, setting', hsetting, hval, hsetting'⟩
              · simp [hnone, hnone']
              · rw [hsetting, hsetting', Option.getD_some, Option.getD_some]
                rcases setting.dict_or_other with ⟨entries, rfl⟩ | hother
                · obtain ⟨entries', hentries', rfl⟩ := strip_dict hval
                  rw [uidFor_dict_preserved_iff hentries']
                  simp only [Option.some.injEq, PyVal.dict.injEq, forall_eq']
                · rw [uidFor_strip hval hother]
                  simp only [Option.some.injEq, true_iff]
                  exact fun entries heq => absurd heq (hother entries)
        · simp only [get_other hother, true_iff]
          exact forall_dict_of_other rfl hother
  · refine ⟨fun _ => forall_dict_of_other hvalue hother, fun _ => ?_⟩
    simp only [hvalue, hvalue', bind, Except.bind, get_other hother, get_other hother', hraised]

end

/-- A question to the store. -/
inductive Query where
  | matchSocket (socketPath : String)
  | matchConsoleName (cname : String)
  | getCommand (action : String)
  | getAllCommands
  | getDefaultExec
  | getWatchDir
  | resolveTrustedUid (passwd : Passwd) (defn vars : PyVal)

/-- Both stores answer alike; a definition that is found may differ in its compiled
fields. -/
def Preserved (rt : Runtime) (cfg pushed : PyVal) : Query → Prop
  | .matchSocket socketPath =>
      Alike SameFound (matchSocket cfg (.str socketPath)) (matchSocket pushed (.str socketPath))
  | .matchConsoleName cname =>
      Alike SameFound (matchConsoleName cfg cname) (matchConsoleName pushed cname)
  | .getCommand action => getCommand pushed action = getCommand cfg action
  | .getAllCommands => getAllCommands pushed = getAllCommands cfg
  | .getDefaultExec => getDefaultExec pushed = getDefaultExec cfg
  | .getWatchDir => getWatchDir pushed = getWatchDir cfg
  | .resolveTrustedUid passwd defn vars =>
      resolveTrustedUid rt passwd pushed defn vars = resolveTrustedUid rt passwd cfg defn vars

/-- Nothing that the answer is made of is under a private key. -/
def Kept (cfg : PyVal) : Query → Prop
  | .matchSocket socketPath => SocketKept cfg socketPath
  | .matchConsoleName cname => NameKept cfg cname
  | .getCommand action => CommandKept cfg action
  | .getAllCommands => AllCommandsKept cfg
  | .getDefaultExec => DefaultExecKept cfg
  | .getWatchDir => WatchDirKept cfg
  | .resolveTrustedUid _ defn _ => TrustedUidKept cfg defn

theorem preserved_iff_kept {rt : Runtime} {cfg pushed : PyVal} (h : Pushed rt cfg pushed)
    (query : Query) : Preserved rt cfg pushed query ↔ Kept cfg query := by
  cases query with
  | matchSocket socketPath => exact matchSocket_preserved_iff h socketPath
  | matchConsoleName cname => exact matchConsoleName_preserved_iff h cname
  | getCommand action => exact getCommand_preserved_iff h action
  | getAllCommands => exact getAllCommands_preserved_iff h
  | getDefaultExec => exact getDefaultExec_preserved_iff h
  | getWatchDir => exact getWatchDir_preserved_iff h
  | resolveTrustedUid passwd defn vars => exact resolveTrustedUid_preserved_iff h passwd defn vars

def labConsole : PyVal := .ofFields [
  ("type", .str "qemu_unix"), ("socket", .str "/run/vnctlsd/lab.sock")]

def labPattern : PyVal := .ofFields [
  ("socket_glob", .str "/run/vnctlsd/{owner}-{vm}.sock"),
  ("console_name", .str "{owner}/{vm}")]

/-- A store of one console and one pattern. -/
def labContent (name : String) : PyVal := .ofFields [
  ("consoles", .ofFields [(name, labConsole)]), ("console_patterns", .list [labPattern])]

end Vnctlsd.ConfigQueries
