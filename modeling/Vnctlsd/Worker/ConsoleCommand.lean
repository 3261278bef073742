import Vnctlsd.ACLResolver

/-! The `console <name>` command of an authenticated session, up to the point
where it attaches.  The hub registry enters only through the question whether a
live hub has the name. -/
namespace Vnctlsd.Worker.ConsoleCommand
open Vnctlsd.Python ConsoleConfigStore UserMapStore ACLResolver

/-- The definition and the variables handed to the access decision; `none` when
the command answers that the console is not found.  With a live hub and no
definition the decision is made on no definition at all. -/
def consoleLookup (cfg : PyVal) (cname : String) (hubLive : Bool) :
    Py (Option (PyVal × PyVal)) := do
  let defn ← explicitConsole cfg cname
  if !defn.isNone then return some (defn, .emptyDict)
  match ← matchConsoleName cfg cname with
  | some found => pure (some found)
  | none =>
      if hubLive then pure (some (.none, .emptyDict))
      else match ← getDefaultExec cfg with
        | some defn => pure (some (defn, .emptyDict))
        | none => pure none

inductive Outcome where
  | notFound
  | denied
  | noExecDefinition
  | notYetActive
  | spawn (level : Level)
  | attach (level : Level)
  deriving DecidableEq

def activate (defn : PyVal) (level : Level) (hubLive : Bool) : Py Outcome :=
  if hubLive then .ok (.attach level)
  else if defn.isNone then .ok .noExecDefinition
  else do
    let ctype ← defn.get "type" (.str "exec")
    pure (if ctype.eqStr "exec" then .spawn level else .notYetActive)

def decision (rt : Runtime) (userMap : PyVal) (username : String)
    (found : PyVal × PyVal) : Py (Option Level) :=
  resolveAccess rt userMap username (found.1.orElse .emptyDict) found.2

def consoleCommand (rt : Runtime) (userMap cfg : PyVal) (username cname : String)
    (hubLive hubLiveLater : Bool) : Py Outcome := do
  match ← consoleLookup cfg cname hubLive with
  | none => pure .notFound
  | some found => do
      match ← decision rt userMap username found with
      | none => pure .denied
      | some level => activate found.1 level hubLiveLater

theorem decision_dict (rt : Runtime) (userMap vars : PyVal) (username : String)
    (entries : List (Key × PyVal)) :
    decision rt userMap username (.dict entries, vars) =
      resolveAccess rt userMap username (.dict entries) vars := by
  rw [decision, PyVal.orElse_dict]

theorem activate_ne_denied (defn : PyVal) (level : Level) (hubLive : Bool) :
    activate defn level hubLive ≠ .ok .denied := by
  unfold activate
  split
  · simp
  · split
    · simp
    · intro h
      obtain ⟨ctype, -, h⟩ := bind_eq_ok.mp h
      split at h <;> cases h

theorem consoleCommand_denied_iff {rt : Runtime} {userMap cfg : PyVal} {username cname : String}
    {hubLive hubLiveLater : Bool} :
    consoleCommand rt userMap cfg username cname hubLive hubLiveLater = .ok .denied ↔
      ∃ found, consoleLookup cfg cname hubLive = .ok (some found) ∧
        decision rt userMap username found = .ok none := by
  constructor
  · intro h
    obtain ⟨looked, hlookup, h⟩ := bind_eq_ok.mp h
    cases looked with
    | none => cases h
    | some found =>
        obtain ⟨level, hlevel, h⟩ := bind_eq_ok.mp h
        cases level with
        | none => exact ⟨found, hlookup, hlevel⟩
        | some level => exact absurd h (activate_ne_denied found.1 level hubLiveLater)
  · rintro ⟨found, hlookup, hlevel⟩
    simp [consoleCommand, hlookup, hlevel, bind, Except.bind, pure, Except.pure]

/-- What the worker has established when it asks the monitor to spawn. -/
theorem consoleCommand_spawn_iff {rt : Runtime} {userMap cfg : PyVal} {username cname : String}
    {hubLive hubLiveLater : Bool} {level : Level} :
    consoleCommand rt userMap cfg username cname hubLive hubLiveLater = .ok (.spawn level) ↔
      hubLiveLater = false ∧ ∃ found, consoleLookup cfg cname hubLive = .ok (some found) ∧
        decision rt userMap username found = .ok (some level) ∧
        found.1.isNone = false ∧
        ∃ ctype, found.1.get "type" (.str "exec") = .ok ctype ∧ ctype.eqStr "exec" = true := by
  constructor
  · intro h
    obtain ⟨looked, hlookup, h⟩ := bind_eq_ok.mp h
    cases looked with
    | none => cases h
    | some found =>
        obtain ⟨granted, hdecision, h⟩ := bind_eq_ok.mp h
        cases granted with
        | none => cases h
        | some granted =>
            cases hubLiveLater with
            | true => cases h
            | false =>
                cases hnone : found.1.isNone with
                | true => simp [activate, hnone] at h
                | false =>
                    simp only [activate, hnone, Bool.false_eq_true, if_false] at h
                    obtain ⟨ctype, htype, h⟩ := bind_eq_ok.mp h
                    cases hexec : ctype.eqStr "exec" with
                    | false =>
                        rw [hexec] at h
                        cases h
                    | true =>
                        rw [hexec] at h
                        cases h
                        exact ⟨rfl, found, hlookup, hdecision, hnone, ctype, htype, hexec⟩
  · rintro ⟨rfl, found, hlookup, hdecision, hnone, ctype, htype, hexec⟩
    simp [consoleCommand, activate, hlookup, hdecision, hnone, htype, hexec, bind, Except.bind,
      pure, Except.pure]

def Undefined (cfg : PyVal) (cname : String) : Prop :=
  explicitConsole cfg cname = .ok .none ∧ matchConsoleName cfg cname = .ok none

theorem consoleLookup_undefined_live {cfg : PyVal} {cname : String}
    (h : Undefined cfg cname) :
    consoleLookup cfg cname true = .ok (some (.none, .emptyDict)) := by
  simp [consoleLookup, h.1, h.2, bind, Except.bind, pure, Except.pure]

theorem consoleLookup_undefined_idle {cfg : PyVal} {cname : String}
    (h : Undefined cfg cname) :
    consoleLookup cfg cname false =
      (getDefaultExec cfg).map fun defn => defn.map fun defn => (defn, .emptyDict) := by
  cases hdefault : getDefaultExec cfg with
  | error e => simp [consoleLookup, h.1, h.2, hdefault, bind, Except.bind, Except.map]
  | ok defn =>
      cases defn <;>
        simp [consoleLookup, h.1, h.2, hdefault, bind, Except.bind, pure, Except.pure, Except.map]

theorem consoleLookup_defined {cfg : PyVal} {cname : String} (h : ¬ Undefined cfg cname) :
    consoleLookup cfg cname true = consoleLookup cfg cname false := by
  cases hexplicit : explicitConsole cfg cname with
  | error e => simp [consoleLookup, hexplicit, bind, Except.bind]
  | ok defn =>
      cases hnone : defn.isNone with
      | false => simp [consoleLookup, hexplicit, hnone, bind, Except.bind]
      | true =>
          obtain rfl := (PyVal.isNone_eq_true_iff defn).mp hnone
          cases hmatch : matchConsoleName cfg cname with
          | error e => simp [consoleLookup, hexplicit, hmatch, bind, Except.bind]
          | ok found =>
              cases found with
              | none => exact absurd ⟨hexplicit, hmatch⟩ h
              | some found => simp [consoleLookup, hexplicit, hmatch, bind, Except.bind]

theorem getDefaultExec_dict {cfg defn : PyVal} (h : getDefaultExec cfg = .ok (some defn)) :
    defn.truthy = true ∧ ∃ entries, defn = .dict entries := by
  obtain ⟨defaults, -, h⟩ := bind_eq_ok.mp h
  obtain ⟨console, -, h⟩ := bind_eq_ok.mp h
  cases htruthy : console.truthy with
  | false =>
      rw [htruthy] at h
      cases h
  | true =>
      rw [htruthy] at h
      obtain ⟨ctype, htype, h⟩ := bind_eq_ok.mp h
      split at h <;> cases h
      exact ⟨htruthy, PyVal.eq_dict_of_get_ok htype⟩

def RegistryIndependent (rt : Runtime) (userMap cfg : PyVal) (username cname : String) : Prop :=
  ∀ idle live, consoleLookup cfg cname false = .ok (some idle) →
    consoleLookup cfg cname true = .ok (some live) →
    decision rt userMap username idle = decision rt userMap username live

/-- The lists of a definition, if it has any, give a known user his role. -/
def ListsGiveRole (rt : Runtime) (userMap : PyVal) (username : String) (defn : PyVal) : Prop :=
  ∀ groups rwList roList, knownGroups userMap username = .ok (some groups) →
    defn.get "rw" .emptyList = .ok rwList → defn.get "ro" .emptyList = .ok roList →
    (rwList.truthy || roList.truthy) = true →
    listLevel rt username groups .emptyDict rwList roList = getRole userMap username

/-- On no definition the user's role decides, as it does where the lists agree
with it. -/
theorem decision_eq_role_iff (rt : Runtime) (userMap : PyVal) (username : String)
    {defn : PyVal} (hdict : ∃ entries, defn = .dict entries) :
    resolveAccess rt userMap username defn .emptyDict =
        resolveAccess rt userMap username .emptyDict .emptyDict ↔
      ListsGiveRole rt userMap username defn := by
  obtain ⟨entries, rfl⟩ := hdict
  cases hknown : knownGroups userMap username with
  | error e =>
      simp [resolveAccess, ListsGiveRole, hknown, bind, Except.bind]
  | ok known =>
      cases known with
      | none =>
          simp [resolveAccess, ListsGiveRole, hknown, bind, Except.bind]
      | some groups =>
          have hrole := resolveAccess_of_no_lists rt userMap username .emptyDict .emptyDict
            hknown rfl rfl rfl
          rw [hrole]
          constructor
          · intro h groups' rwList roList hgroups hrw hro hlists
            rw [hknown] at hgroups
            cases hgroups
            rw [← h, resolveAccess_of_lists rt userMap username _ _ hknown hrw hro hlists]
          · intro h
            obtain ⟨rwList, hrw⟩ : ∃ list, (PyVal.dict entries).get "rw" .emptyList = .ok list :=
              ⟨_, rfl⟩
            obtain ⟨roList, hro⟩ : ∃ list, (PyVal.dict entries).get "ro" .emptyList = .ok list :=
              ⟨_, rfl⟩
            cases hlists : rwList.truthy || roList.truthy with
            | false => exact resolveAccess_of_no_lists rt userMap username _ _ hknown hrw hro hlists
            | true =>
                rw [resolveAccess_of_lists rt userMap username _ _ hknown hrw hro hlists]
                exact h groups rwList roList hknown hrw hro hlists

/-- The decision does not depend on the registry exactly when the name is
defined, or there is no default backend, or the entries of the default backend
give the user no more and no less than his role. -/
theorem registryIndependent_iff (rt : Runtime) (userMap cfg : PyVal)
    (username cname : String) :
    RegistryIndependent rt userMap cfg username cname ↔
      (Undefined cfg cname → ∀ defn, getDefaultExec cfg = .ok (some defn) →
        ListsGiveRole rt userMap username defn) := by
  constructor
  · intro h hundefined defn hdefault
    obtain ⟨htruthy, hdict⟩ := getDefaultExec_dict hdefault
    have hidle : consoleLookup cfg cname false = .ok (some (defn, .emptyDict)) := by
      rw [consoleLookup_undefined_idle hundefined, hdefault]
      rfl
    have hsame := h _ _ hidle (consoleLookup_undefined_live hundefined)
    simp only [decision, PyVal.orElse, htruthy, if_true] at hsame
    exact (decision_eq_role_iff rt userMap username hdict).mp hsame
  · intro h idle live hidle hlive
    by_cases hundefined : Undefined cfg cname
    · rw [consoleLookup_undefined_live hundefined] at hlive
      rw [consoleLookup_undefined_idle hundefined] at hidle
      cases hdefault : getDefaultExec cfg with
      | error e => simp [hdefault, Except.map] at hidle
      | ok found =>
          cases found with
          | none => simp [hdefault, Except.map] at hidle
          | some defn =>
              obtain ⟨htruthy, hdict⟩ := getDefaultExec_dict hdefault
              simp only [hdefault, Except.map, Option.map_some, Except.ok.injEq,
                Option.some.injEq] at hidle hlive
              subst hidle hlive
              simp only [decision, PyVal.orElse, htruthy, if_true]
              exact (decision_eq_role_iff rt userMap username hdict).mpr
                (h hundefined defn hdefault)
    · rw [consoleLookup_defined hundefined, hidle] at hlive
      cases hlive
      rfl

/-- A default backend reserved for the `admins` group, and a user of another
group whose role is `read_write`. -/
def reservedDefault : PyVal := .ofFields [("defaults", .ofFields [("console", .ofFields [
  ("type", .str "exec"), ("cmd", .str "virsh console {name}"),
  ("rw", .list [.str "admins"])])])]

def labUsers : PyVal := .ofFields [
  ("users", .ofFields [("student01", .ofFields [("groups", .list [.str "lab-a"])])]),
  ("groups", .ofFields [("lab-a", .ofFields [("role", .str "read_write")])])]

/-- The user is denied while no hub runs, and attaches read-write as soon as an
administrator has started one. -/
theorem reservedDefault_depends_on_registry :
    ¬ RegistryIndependent .plain labUsers reservedDefault "student01" "vm-lab01" := by
  intro h
  have hsame := h _ _ rfl rfl
  exact absurd hsame (by decide)

end Vnctlsd.Worker.ConsoleCommand
