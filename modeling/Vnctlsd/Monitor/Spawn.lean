import Vnctlsd.ACLResolver
import Vnctlsd.Monitor.Commands

/-! The SPAWN_REQ branch of the monitor up to the command line: it trusts nothing
the worker says, so it looks the console up and decides on access again. -/
namespace Vnctlsd.Monitor
open Vnctlsd.Python ConsoleConfigStore UserMapStore ACLResolver

def spawnLookup (cfg : PyVal) (consoleName : String) : Py (Option (PyVal × PyVal)) := do
  let defn ← explicitConsole cfg consoleName
  if !defn.isNone then return some (defn, .emptyDict)
  match ← matchConsoleName cfg consoleName with
  | some found => pure (some found)
  | none => do
      let defn ← getDefaultExec cfg
      pure (defn.map fun defn => (defn, .emptyDict))

inductive Refusal where
  | invalidName
  | notDefined
  | notExec
  | accessDenied
  | noCmd
  | templateError (missing : String)
  deriving DecidableEq

def Refusal.text (rt : Runtime) (consoleName : String) : Refusal → String
  | .invalidName => "invalid console name"
  | .notDefined =>
      let shown := rt.repr (.str consoleName)
      s!"console {shown} not defined"
  | .notExec =>
      let shown := rt.repr (.str consoleName)
      s!"console {shown} is not exec type"
  | .accessDenied => "access denied"
  | .noCmd =>
      let shown := rt.repr (.str consoleName)
      s!"console {shown} has no cmd"
  | .templateError missing => s!"cmd template error: {missing}"

inductive SpawnPlan where
  | refuse (refusal : Refusal)
  | run (cmd : List String)
  deriving DecidableEq

/-- `cmd_template.format(name=console_name, **vars_)`: a captured variable of the
same name makes the call itself fail. -/
def fillSpawn (rt : Runtime) (cmdTemplate vars : PyVal) (consoleName : String) : Py String :=
  match cmdTemplate with
  | .str _ => do
      let fields ← vars.kwargs
      if (fields.map Prod.fst).contains "name" then
        raise .typeError "str.format() got multiple values for keyword argument 'name'"
      else Format.format rt cmdTemplate (("name", .str consoleName) :: fields)
  | other => other.noAttribute "format"

def spawnCommand (rt : Runtime) (defn vars : PyVal) (consoleName : String) : Py SpawnPlan := do
  let cmdTemplate ← defn.get "cmd" (.str "")
  if !cmdTemplate.truthy then return .refuse .noCmd
  match ← commandLine (fillSpawn rt cmdTemplate vars consoleName) with
  | .error missing => pure (.refuse (.templateError missing))
  | .ok cmd => pure (.run cmd)

def spawnPlan (policy : Policy) (username consoleName : String) : Py SpawnPlan := do
  if !validateVmName consoleName then return .refuse .invalidName
  match ← spawnLookup policy.cfg consoleName with
  | none => pure (.refuse .notDefined)
  | some (defn, vars) => do
      let ctype ← defn.get "type" (.str "exec")
      if !ctype.eqStr "exec" then return .refuse .notExec
      match ← resolveAccess policy.rt policy.userMap username defn vars with
      | none => pure (.refuse .accessDenied)
      | some _ => spawnCommand policy.rt defn vars consoleName

def SpawnUsable (rt : Runtime) (cmdTemplate vars : PyVal) (consoleName : String) : Prop :=
  ∃ fields, vars.kwargs = .ok fields ∧ "name" ∉ fields.map Prod.fst ∧
    Usable (Format.format rt cmdTemplate (("name", .str consoleName) :: fields))

theorem usable_fillSpawn_iff (rt : Runtime) (cmdTemplate vars : PyVal) (consoleName : String) :
    Usable (fillSpawn rt cmdTemplate vars consoleName) ↔
      SpawnUsable rt cmdTemplate vars consoleName := by
  cases cmdTemplate with
  | str s =>
      cases hfields : vars.kwargs with
      | error e =>
          have hkind := PyVal.kwargs_error hfields
          simp [fillSpawn, SpawnUsable, hfields, Usable, hkind, bind, Except.bind]
      | ok fields =>
          have hfill : fillSpawn rt (.str s) vars consoleName =
              if (fields.map Prod.fst).contains "name" then
                raise .typeError "str.format() got multiple values for keyword argument 'name'"
              else Format.format rt (.str s) (("name", .str consoleName) :: fields) := by
            simp only [fillSpawn, hfields, bind, Except.bind]
          rw [hfill]
          constructor
          · intro h
            by_cases hname : "name" ∈ fields.map Prod.fst
            · rw [if_pos (List.contains_iff_mem.mpr hname)] at h
              cases h
            · rw [if_neg (mt List.contains_iff_mem.mp hname)] at h
              exact ⟨fields, hfields, hname, h⟩
          · rintro ⟨_, hsame, hname, h⟩
            obtain rfl : fields = _ := Except.ok.inj (hfields.symm.trans hsame)
            rwa [if_neg (mt List.contains_iff_mem.mp hname)]
  | none | bool | int | float | list | dict | pattern | date =>
      simp [fillSpawn, SpawnUsable, Format.format, PyVal.noAttribute, Usable, raise]

def SpawnCommandReturns (rt : Runtime) (defn vars : PyVal) (consoleName : String) : Prop :=
  ∃ cmdTemplate, defn.get "cmd" (.str "") = .ok cmdTemplate ∧
    (cmdTemplate.truthy = true → SpawnUsable rt cmdTemplate vars consoleName)

theorem spawnCommand_returns_iff (rt : Runtime) (defn vars : PyVal) (consoleName : String) :
    (∃ plan, spawnCommand rt defn vars consoleName = .ok plan) ↔
      SpawnCommandReturns rt defn vars consoleName := by
  constructor
  · rintro ⟨plan, h⟩
    obtain ⟨cmdTemplate, htemplate, h⟩ := bind_eq_ok.mp h
    refine ⟨cmdTemplate, htemplate, fun htruthy => ?_⟩
    simp only [htruthy, Bool.not_true, Bool.false_eq_true, if_false] at h
    obtain ⟨line, hline, -⟩ := bind_eq_ok.mp h
    exact (usable_fillSpawn_iff ..).mp ((commandLine_returns_iff _).mp ⟨line, hline⟩)
  · rintro ⟨cmdTemplate, htemplate, h⟩
    cases htruthy : cmdTemplate.truthy with
    | false => simp [spawnCommand, htemplate, htruthy, bind, Except.bind, pure, Except.pure]
    | true =>
        obtain ⟨line, hline⟩ :=
          (commandLine_returns_iff _).mpr ((usable_fillSpawn_iff ..).mpr (h htruthy))
        cases line <;>
          simp [spawnCommand, htemplate, htruthy, hline, bind, Except.bind, pure, Except.pure]

/-- The lookup, the type check and the access decision return, each as far as it
is reached, and so does the command. -/
def SpawnReturns (policy : Policy) (username consoleName : String) : Prop :=
  validateVmName consoleName = true → ∃ found, spawnLookup policy.cfg consoleName = .ok found ∧
    ∀ defn vars, found = some (defn, vars) →
      ∃ ctype, defn.get "type" (.str "exec") = .ok ctype ∧ (ctype.eqStr "exec" = true →
        ∃ level, resolveAccess policy.rt policy.userMap username defn vars = .ok level ∧
          (level.isSome = true → SpawnCommandReturns policy.rt defn vars consoleName))

theorem spawnPlan_returns_iff (policy : Policy) (username consoleName : String) :
    (∃ plan, spawnPlan policy username consoleName = .ok plan) ↔
      SpawnReturns policy username consoleName := by
  constructor
  · rintro ⟨plan, h⟩ hvalid
    simp only [spawnPlan, hvalid, Bool.not_true, Bool.false_eq_true, if_false] at h
    obtain ⟨found, hfound, h⟩ := bind_eq_ok.mp h
    refine ⟨found, hfound, ?_⟩
    rintro defn vars rfl
    obtain ⟨ctype, htype, h⟩ := bind_eq_ok.mp h
    refine ⟨ctype, htype, fun hexec => ?_⟩
    simp only [hexec, Bool.not_true, Bool.false_eq_true, if_false] at h
    obtain ⟨level, hlevel, h⟩ := bind_eq_ok.mp h
    refine ⟨level, hlevel, fun hgranted => ?_⟩
    obtain ⟨granted, rfl⟩ := Option.isSome_iff_exists.mp hgranted
    exact (spawnCommand_returns_iff ..).mp ⟨plan, h⟩
  · intro h
    cases hvalid : validateVmName consoleName with
    | false => simp [spawnPlan, hvalid, pure, Except.pure]
    | true =>
        obtain ⟨found, hfound, h⟩ := h hvalid
        cases found with
        | none => simp [spawnPlan, hvalid, hfound, bind, Except.bind, pure, Except.pure]
        | some found =>
            obtain ⟨ctype, htype, h⟩ := h found.1 found.2 rfl
            cases hexec : ctype.eqStr "exec" with
            | false =>
                simp [spawnPlan, hvalid, hfound, htype, hexec, bind, Except.bind, pure,
                  Except.pure]
            | true =>
                obtain ⟨level, hlevel, h⟩ := h hexec
                cases level with
                | none =>
                    simp [spawnPlan, hvalid, hfound, htype, hexec, hlevel, bind, Except.bind,
                      pure, Except.pure]
                | some level =>
                    obtain ⟨plan, hplan⟩ := (spawnCommand_returns_iff ..).mpr (h rfl)
                    simp [spawnPlan, hvalid, hfound, htype, hexec, hlevel, hplan, bind,
                      Except.bind]

end Vnctlsd.Monitor
