import Vnctlsd.Monitor.Spawn
import Vnctlsd.Worker.ConsoleCommand

/-! The monitor's second look at a console before it spawns, beside the worker's
first one.  Both read the same policy. -/
namespace Vnctlsd.Monitor
open Vnctlsd.Python ConsoleConfigStore UserMapStore ACLResolver Worker.ConsoleCommand

/-- The checks of SPAWN_REQ behind the check of the name, up to the definition
and the variables the command is built from. -/
def spawnChecks (policy : Policy) (username consoleName : String) :
    Py (Except Refusal (PyVal × PyVal)) := do
  match ← spawnLookup policy.cfg consoleName with
  | none => pure (.error .notDefined)
  | some (defn, vars) => do
      let ctype ← defn.get "type" (.str "exec")
      if !ctype.eqStr "exec" then return .error .notExec
      match ← resolveAccess policy.rt policy.userMap username defn vars with
      | none => pure (.error .accessDenied)
      | some _ => pure (.ok (defn, vars))

def buildCommand (rt : Runtime) (consoleName : String) :
    Except Refusal (PyVal × PyVal) → Py SpawnPlan
  | .error refusal => .ok (.refuse refusal)
  | .ok found => spawnCommand rt found.1 found.2 consoleName

theorem spawnPlan_eq_spawnChecks (policy : Policy) (username consoleName : String)
    (hvalid : validateVmName consoleName = true) :
    spawnPlan policy username consoleName =
      spawnChecks policy username consoleName >>= buildCommand policy.rt consoleName := by
  simp only [spawnPlan, hvalid, Bool.not_true, Bool.false_eq_true, if_false, spawnChecks]
  cases spawnLookup policy.cfg consoleName with
  | error e => rfl
  | ok found =>
      cases found with
      | none => rfl
      | some found =>
          simp only [bind, Except.bind]
          cases found.1.get "type" (.str "exec") with
          | error e => rfl
          | ok ctype =>
              simp only
              cases ctype.eqStr "exec" with
              | false => rfl
              | true =>
                  simp only [Bool.not_true, Bool.false_eq_true, if_false]
                  cases resolveAccess policy.rt policy.userMap username found.1 found.2 with
                  | error e => rfl
                  | ok level => cases level <;> rfl

theorem spawnChecks_eq_ok_iff {policy : Policy} {username consoleName : String}
    {found : PyVal × PyVal} :
    spawnChecks policy username consoleName = .ok (.ok found) ↔
      spawnLookup policy.cfg consoleName = .ok (some found) ∧
        (∃ ctype, found.1.get "type" (.str "exec") = .ok ctype ∧ ctype.eqStr "exec" = true) ∧
        ∃ level, resolveAccess policy.rt policy.userMap username found.1 found.2 =
          .ok (some level) := by
  constructor
  · intro h
    obtain ⟨looked, hlookup, h⟩ := bind_eq_ok.mp h
    cases looked with
    | none => cases h
    | some looked =>
        obtain ⟨ctype, htype, h⟩ := bind_eq_ok.mp h
        cases hexec : ctype.eqStr "exec" with
        | false => simp [hexec, pure, Except.pure] at h
        | true =>
            simp only [hexec, Bool.not_true, Bool.false_eq_true, if_false] at h
            obtain ⟨level, hlevel, h⟩ := bind_eq_ok.mp h
            cases level with
            | none => cases h
            | some level =>
                cases h
                exact ⟨hlookup, ⟨ctype, htype, hexec⟩, level, hlevel⟩
  · rintro ⟨hlookup, ⟨ctype, htype, hexec⟩, level, hlevel⟩
    simp [spawnChecks, hlookup, htype, hexec, hlevel, bind, Except.bind, pure, Except.pure]

theorem spawnLookup_eq_consoleLookup (cfg : PyVal) (cname : String) :
    spawnLookup cfg cname = consoleLookup cfg cname false := by
  unfold spawnLookup consoleLookup
  cases explicitConsole cfg cname with
  | error e => rfl
  | ok defn =>
      simp only [bind, Except.bind]
      split
      · rfl
      · cases matchConsoleName cfg cname with
        | error e => rfl
        | ok found =>
            cases found with
            | some found => rfl
            | none =>
                cases getDefaultExec cfg with
                | error e => rfl
                | ok defn => cases defn <;> rfl

/-- A definition the worker can spawn is there without a hub too: with a hub and
no definition there is nothing to spawn. -/
theorem consoleLookup_of_isNone {cfg : PyVal} {cname : String} {hubLive : Bool}
    {found : PyVal × PyVal} (h : consoleLookup cfg cname hubLive = .ok (some found))
    (hnone : found.1.isNone = false) : consoleLookup cfg cname false = .ok (some found) := by
  cases hubLive with
  | false => exact h
  | true =>
      by_cases hundefined : Undefined cfg cname
      · rw [consoleLookup_undefined_live hundefined] at h
        cases h
        cases hnone
      · rwa [← consoleLookup_defined hundefined]

/-- Once the checks have passed only the command itself can be refused. -/
theorem spawnCommand_refusal {rt : Runtime} {defn vars : PyVal} {consoleName : String}
    {refusal : Refusal} (h : spawnCommand rt defn vars consoleName = .ok (.refuse refusal)) :
    refusal = .noCmd ∨ ∃ missing, refusal = .templateError missing := by
  obtain ⟨cmdTemplate, -, h⟩ := bind_eq_ok.mp h
  cases htruthy : cmdTemplate.truthy with
  | false =>
      rw [htruthy] at h
      cases h
      exact .inl rfl
  | true =>
      rw [htruthy] at h
      obtain ⟨line, -, h⟩ := bind_eq_ok.mp h
      cases line with
      | error missing =>
          cases h
          exact .inr ⟨missing, rfl⟩
      | ok cmd => cases h

theorem spawnPlan_of_checked {policy : Policy} {username consoleName : String}
    {found : PyVal × PyVal} (hchecks : spawnChecks policy username consoleName = .ok (.ok found)) :
    spawnPlan policy username consoleName =
      if validateVmName consoleName then spawnCommand policy.rt found.1 found.2 consoleName
      else .ok (.refuse .invalidName) := by
  cases hvalid : validateVmName consoleName with
  | false => simp [spawnPlan, hvalid, pure, Except.pure]
  | true =>
      rw [spawnPlan_eq_spawnChecks policy username consoleName hvalid, hchecks]
      rfl

theorem spawnPlan_refusal_of_checked {policy : Policy} {username consoleName : String}
    {found : PyVal × PyVal} {refusal : Refusal}
    (hchecks : spawnChecks policy username consoleName = .ok (.ok found))
    (h : spawnPlan policy username consoleName = .ok (.refuse refusal)) :
    refusal ≠ .notDefined ∧ refusal ≠ .notExec ∧ refusal ≠ .accessDenied := by
  rw [spawnPlan_of_checked hchecks] at h
  split at h
  · rcases spawnCommand_refusal h with rfl | ⟨missing, rfl⟩ <;> simp
  · cases h
    simp

theorem spawnChecks_of_spawn {policy : Policy} {username cname : String}
    {hubLive hubLiveLater : Bool} {level : Level}
    (h : consoleCommand policy.rt policy.userMap policy.cfg username cname hubLive hubLiveLater =
      .ok (.spawn level)) :
    ∃ found, consoleLookup policy.cfg cname hubLive = .ok (some found) ∧
      spawnLookup policy.cfg cname = .ok (some found) ∧
      spawnChecks policy username cname = .ok (.ok found) := by
  obtain ⟨-, ⟨defn, vars⟩, hlookup, hdecision, hnone, ctype, htype, hexec⟩ :=
    consoleCommand_spawn_iff.mp h
  have hspawn : spawnLookup policy.cfg cname = .ok (some (defn, vars)) := by
    rw [spawnLookup_eq_consoleLookup]
    exact consoleLookup_of_isNone hlookup hnone
  obtain ⟨entries, rfl⟩ := PyVal.eq_dict_of_get_ok htype
  rw [decision_dict] at hdecision
  refine ⟨(.dict entries, vars), hlookup, hspawn, ?_⟩
  exact spawnChecks_eq_ok_iff.mpr ⟨hspawn, ⟨ctype, htype, hexec⟩, level, hdecision⟩

theorem spawn_of_spawnChecks {policy : Policy} {username cname : String} {found : PyVal × PyVal}
    (h : spawnChecks policy username cname = .ok (.ok found)) :
    ∃ level, consoleLookup policy.cfg cname false = .ok (some found) ∧
      decision policy.rt policy.userMap username found = .ok (some level) ∧
      consoleCommand policy.rt policy.userMap policy.cfg username cname false false =
        .ok (.spawn level) := by
  obtain ⟨defn, vars⟩ := found
  obtain ⟨hspawn, ⟨ctype, htype, hexec⟩, level, hlevel⟩ := spawnChecks_eq_ok_iff.mp h
  rw [spawnLookup_eq_consoleLookup] at hspawn
  obtain ⟨entries, rfl⟩ := PyVal.eq_dict_of_get_ok htype
  rw [← decision_dict] at hlevel
  refine ⟨level, hspawn, hlevel, ?_⟩
  exact consoleCommand_spawn_iff.mpr
    ⟨rfl, (.dict entries, vars), hspawn, hlevel, rfl, ctype, htype, hexec⟩

/-- The worker reaches the spawn exactly where the monitor's checks behind the
check of the name pass, whatever hubs are live.  For a name that the monitor
takes, its plan is then the command of the very definition and variables that
the worker found; no other name gets as far as the lookup. -/
theorem recheck_agrees (policy : Policy) (username cname : String) :
    (∀ hubLive hubLiveLater level,
      consoleCommand policy.rt policy.userMap policy.cfg username cname hubLive hubLiveLater =
          .ok (.spawn level) →
        ∃ found, consoleLookup policy.cfg cname hubLive = .ok (some found) ∧
          spawnLookup policy.cfg cname = .ok (some found) ∧
          spawnPlan policy username cname =
            (if validateVmName cname then spawnCommand policy.rt found.1 found.2 cname
              else .ok (.refuse .invalidName)) ∧
          ∀ refusal, spawnPlan policy username cname = .ok (.refuse refusal) →
            refusal ≠ .notDefined ∧ refusal ≠ .notExec ∧ refusal ≠ .accessDenied) ∧
    (∀ found, spawnChecks policy username cname = .ok (.ok found) →
      ∃ level, consoleLookup policy.cfg cname false = .ok (some found) ∧
        decision policy.rt policy.userMap username found = .ok (some level) ∧
        consoleCommand policy.rt policy.userMap policy.cfg username cname false false =
          .ok (.spawn level)) := by
  constructor
  · intro hubLive hubLiveLater level h
    obtain ⟨found, hlookup, hspawn, hchecks⟩ := spawnChecks_of_spawn h
    refine ⟨found, hlookup, hspawn, spawnPlan_of_checked hchecks, ?_⟩
    intro refusal hplan
    exact spawnPlan_refusal_of_checked hchecks hplan
  · intro found h
    exact spawn_of_spawnChecks h

def atSignPolicy : Policy where
  rt := .plain
  userMap := .ofFields [
    ("users", .ofFields [("bob", .ofFields [("groups", .list [.str "lab"])])]),
    ("groups", .ofFields [("lab", .ofFields [("role", .str "read_write")])])]
  cfg := .ofFields [("consoles", .ofFields [
    ("lab@01", .ofFields [("type", .str "exec"), ("cmd", .str "virsh console lab01"),
      ("rw", .list [.str "lab"])])])]

/-- The worker asks for a console whose name the monitor does not take: no
definition is picked there. -/
theorem recheck_refuses_name :
    consoleCommand atSignPolicy.rt atSignPolicy.userMap atSignPolicy.cfg "bob" "lab@01"
        false false = .ok (.spawn .readWrite) ∧
      spawnPlan atSignPolicy "bob" "lab@01" = .ok (.refuse .invalidName) ∧
      ¬ ∃ found, consoleLookup atSignPolicy.cfg "lab@01" false = .ok (some found) ∧
        spawnPlan atSignPolicy "bob" "lab@01" =
          spawnCommand atSignPolicy.rt found.1 found.2 "lab@01" := by
  have hplan : spawnPlan atSignPolicy "bob" "lab@01" = .ok (.refuse .invalidName) := by decide
  refine ⟨by decide, hplan, ?_⟩
  rintro ⟨found, -, hsame⟩
  rw [hplan] at hsame
  rcases spawnCommand_refusal hsame.symm with h | ⟨missing, h⟩
  · cases h
  · cases h

end Vnctlsd.Monitor
