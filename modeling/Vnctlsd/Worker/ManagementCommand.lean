import Vnctlsd.Worker.ConsoleCommand

/-! The management commands of an authenticated session: the actions of the
configuration, run on a console by name. -/
namespace Vnctlsd.Worker.ManagementCommand
open Vnctlsd.Python ConsoleConfigStore UserMapStore ACLResolver ConsoleCommand

/-- The words the command loop takes before it looks at the configuration. -/
def builtIn : List String := ["quit", "exit", "help", "list", "console"]

/-- The definition and the variables handed to the access decision; a name
without a definition has none of its own. -/
def managementLookup (cfg : PyVal) (cname : String) : Py (PyVal × PyVal) := do
  let defn ← explicitConsole cfg cname
  if !defn.isNone then return (defn, .emptyDict)
  match ← matchConsoleName cfg cname with
  | some found => pure found
  | none => pure (.none, .emptyDict)

/-- `requested` is the CMD_REQ of `monitor.run_action`. -/
inductive Managed where
  | unknownCommand
  | denied
  | requested (action cname : String)
  deriving DecidableEq

def managementCommand (rt : Runtime) (userMap cfg : PyVal) (username action cname : String) :
    Py Managed := do
  let commands ← getAllCommands cfg
  if !commands.any (fun command => command.eqStr action) then return .unknownCommand
  let found ← managementLookup cfg cname
  match ← decision rt userMap username found with
  | none => pure .denied
  | some _ => pure (.requested action cname)

def Configured (cfg : PyVal) (action : String) : Prop :=
  action ∉ builtIn ∧ ∃ commands, getAllCommands cfg = .ok commands ∧
    (commands.any fun command => command.eqStr action) = true

/-- Whoever is denied the console is denied every management command on it.  The
action is the first word of the line in lower case. -/
def DeniedThroughout (rt : Runtime) (lower : String → String) (userMap cfg : PyVal)
    (username cname : String) : Prop :=
  consoleCommand rt userMap cfg username cname false false = .ok .denied →
    ∀ word, Configured cfg (lower word) →
      managementCommand rt userMap cfg username (lower word) cname = .ok .denied

theorem consoleLookup_live (cfg : PyVal) (cname : String) :
    consoleLookup cfg cname true = (managementLookup cfg cname).map some := by
  unfold consoleLookup managementLookup
  cases explicitConsole cfg cname with
  | error e => rfl
  | ok defn =>
      simp only [bind, Except.bind]
      split
      · rfl
      · cases matchConsoleName cfg cname with
        | error e => rfl
        | ok found => cases found <;> rfl

theorem managementCommand_of_configured {rt : Runtime} {userMap cfg : PyVal}
    {username action cname : String} (h : Configured cfg action) :
    managementCommand rt userMap cfg username action cname = (do
      let found ← managementLookup cfg cname
      match ← decision rt userMap username found with
      | none => pure .denied
      | some _ => pure (.requested action cname)) := by
  obtain ⟨-, commands, hcommands, hmem⟩ := h
  simp only [managementCommand, hcommands, hmem, bind, Except.bind, Bool.not_true,
    Bool.false_eq_true, if_false]

theorem managementCommand_denied_iff {rt : Runtime} {userMap cfg : PyVal}
    {username action cname : String} (h : Configured cfg action) :
    managementCommand rt userMap cfg username action cname = .ok .denied ↔
      ∃ found, managementLookup cfg cname = .ok found ∧
        decision rt userMap username found = .ok none := by
  rw [managementCommand_of_configured h]
  constructor
  · intro h
    obtain ⟨found, hfound, h⟩ := bind_eq_ok.mp h
    obtain ⟨level, hlevel, h⟩ := bind_eq_ok.mp h
    cases level with
    | none => exact ⟨found, hfound, hlevel⟩
    | some level => cases h
  · rintro ⟨found, hfound, hlevel⟩
    simp only [hfound, hlevel, bind, Except.bind]
    rfl

/-- The entries of a definition refuse a user the map knows. -/
def RefusedByLists (rt : Runtime) (userMap : PyVal) (username : String) (defn : PyVal) : Prop :=
  ∃ groups rwList roList, knownGroups userMap username = .ok (some groups) ∧
    defn.get "rw" .emptyList = .ok rwList ∧ defn.get "ro" .emptyList = .ok roList ∧
    (rwList.truthy || roList.truthy) = true ∧
    listLevel rt username groups .emptyDict rwList roList = .ok none

theorem refused_cases {rt : Runtime} {userMap : PyVal} {username : String} {defn : PyVal}
    (h : resolveAccess rt userMap username defn .emptyDict = .ok none) :
    RefusedByLists rt userMap username defn ∨
      resolveAccess rt userMap username .emptyDict .emptyDict = .ok none := by
  cases resolveAccess_iff.mp h with
  | unknownUser hknown => exact .inr (resolveAccess_unknown rt _ _ hknown)
  | byLists hknown hrw hro hlists hlevel =>
      exact .inl ⟨_, _, _, hknown, hrw, hro, hlists, hlevel⟩
  | byRole hknown _ _ _ hrole =>
      exact .inr (resolveAccess_iff.mpr (.byRole hknown rfl rfl rfl hrole))

theorem resolveAccess_of_refusedByLists {rt : Runtime} {userMap : PyVal} {username : String}
    {defn : PyVal} (h : RefusedByLists rt userMap username defn) :
    resolveAccess rt userMap username defn .emptyDict = .ok none ∧
      resolveAccess rt userMap username .emptyDict .emptyDict = getRole userMap username := by
  obtain ⟨groups, rwList, roList, hknown, hrw, hro, hlists, hlevel⟩ := h
  constructor
  · exact resolveAccess_iff.mpr (.byLists hknown hrw hro hlists hlevel)
  · exact resolveAccess_of_no_lists rt userMap username _ _ hknown rfl rfl rfl

theorem managementLookup_undefined {cfg : PyVal} {cname : String} (h : Undefined cfg cname) :
    managementLookup cfg cname = .ok (.none, .emptyDict) := by
  simp [managementLookup, h.1, h.2, bind, Except.bind, pure, Except.pure]

/-- For a defined name both branches decide on one definition. -/
theorem managementLookup_defined {cfg : PyVal} {cname : String} {found : PyVal × PyVal}
    (hdefined : ¬ Undefined cfg cname) (h : consoleLookup cfg cname false = .ok (some found)) :
    managementLookup cfg cname = .ok found := by
  rw [← consoleLookup_defined hdefined, consoleLookup_live] at h
  cases hmanage : managementLookup cfg cname with
  | error e => simp [hmanage, Except.map] at h
  | ok other => simpa [hmanage, Except.map] using h

/-- Management follows the console's denial exactly when the name is defined, or
there is no default backend or no command, or a user whom the entries of the
default backend refuse has no role. -/
theorem deniedThroughout_iff (rt : Runtime) (lower : String → String) (userMap cfg : PyVal)
    (username cname : String) :
    DeniedThroughout rt lower userMap cfg username cname ↔
      (Undefined cfg cname → ∀ defn, getDefaultExec cfg = .ok (some defn) →
        RefusedByLists rt userMap username defn → (∃ word, Configured cfg (lower word)) →
        getRole userMap username = .ok none) := by
  constructor
  · rintro h hundefined defn hdefault hrefused ⟨word, hconfigured⟩
    obtain ⟨-, entries, rfl⟩ := getDefaultExec_dict hdefault
    obtain ⟨hdenied, hrole⟩ := resolveAccess_of_refusedByLists hrefused
    have hidle : consoleLookup cfg cname false = .ok (some (.dict entries, .emptyDict)) := by
      rw [consoleLookup_undefined_idle hundefined, hdefault]
      rfl
    have hconsole := h (consoleCommand_denied_iff.mpr
      ⟨_, hidle, (decision_dict ..).trans hdenied⟩) word hconfigured
    obtain ⟨found, hfound, hlevel⟩ := (managementCommand_denied_iff hconfigured).mp hconsole
    rw [managementLookup_undefined hundefined] at hfound
    cases hfound
    rw [← hrole]
    exact hlevel
  · intro h hconsole word hconfigured
    obtain ⟨found, hlookup, hdenied⟩ := consoleCommand_denied_iff.mp hconsole
    apply (managementCommand_denied_iff hconfigured).mpr
    by_cases hundefined : Undefined cfg cname
    · refine ⟨_, managementLookup_undefined hundefined, ?_⟩
      rw [consoleLookup_undefined_idle hundefined] at hlookup
      cases hdefault : getDefaultExec cfg with
      | error e => simp [hdefault, Except.map] at hlookup
      | ok defn =>
          cases defn with
          | none => simp [hdefault, Except.map] at hlookup
          | some defn =>
              simp only [hdefault, Except.map, Option.map_some, Except.ok.injEq,
                Option.some.injEq] at hlookup
              subst hlookup
              obtain ⟨-, entries, rfl⟩ := getDefaultExec_dict hdefault
              rw [decision_dict] at hdenied
              rcases refused_cases hdenied with hrefused | hrole
              · have hnone := h hundefined _ hdefault hrefused ⟨word, hconfigured⟩
                rw [← (resolveAccess_of_refusedByLists hrefused).2] at hnone
                exact hnone
              · exact hrole
    · exact ⟨found, managementLookup_defined hundefined hlookup, hdenied⟩

/-- A default backend reserved for the `admins` group, and one command. -/
def managedDefault : PyVal := .ofFields [
  ("defaults", .ofFields [("console", .ofFields [
    ("type", .str "exec"), ("cmd", .str "virsh console {name}"),
    ("rw", .list [.str "admins"])])]),
  ("commands", .ofFields [("reboot", .ofFields [("cmd", .str "virsh reboot {name}")])])]

/-- The user is denied the console, and his command is sent to the monitor. -/
theorem managedDefault_reboots :
    ¬ DeniedThroughout .plain id labUsers managedDefault "student01" "vm-lab01" := by
  intro h
  have hconfigured : Configured managedDefault "reboot" := ⟨by decide, _, rfl, by decide⟩
  exact absurd (h (by decide) "reboot" hconfigured) (by decide)

end Vnctlsd.Worker.ManagementCommand
