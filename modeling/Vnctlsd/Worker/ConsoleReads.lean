import Vnctlsd.Library.Reads
import Vnctlsd.Monitor.Replication
import Vnctlsd.Worker.ConsoleCommand

/-! The `console` command up to its decision, reading by reading: the push
listener may replace either store between two of them. -/
namespace Vnctlsd.Worker.ConsoleReads
open Vnctlsd.Library.Reads Vnctlsd.Python ConsoleConfigStore UserMapStore ACLResolver
open Monitor.Replication (Stores)
open ConsoleCommand

/-- What one reading can see; the hub registry says whether the console is live. -/
structure View where
  stores : Stores
  hubLive : Bool

abbrev Reading (α : Type) := Inquiry View PyExc α

def knownGroupsReads (username : String) : Reading (Option (List Key)) := do
  if ← ask fun view => userExists view.stores.userMap username then
    let groups ← ask fun view => getGroups view.stores.userMap username
    let keys ← (groups.mapM PyVal.toKey : Py (List Key))
    pure (some keys)
  else pure none

def roleReads (username : String) : Reading (Option Level) := do
  let groups ← ask fun view => getGroups view.stores.userMap username
  ask fun view => getRoleForGroups view.stores.userMap groups

def resolveReads (rt : Runtime) (username : String) (consoleDef templateVars : PyVal) :
    Reading (Option Level) := do
  match ← knownGroupsReads username with
  | none => pure none
  | some userGroups => do
      let rwList ← consoleDef.get "rw" .emptyList
      let roList ← consoleDef.get "ro" .emptyList
      if rwList.truthy || roList.truthy then
        listLevel rt username userGroups templateVars rwList roList
      else roleReads username

def lookupReads (cname : String) : Reading (Option (PyVal × PyVal)) := do
  let defn ← ask fun view => explicitConsole view.stores.cfg cname
  if !defn.isNone then pure (some (defn, .emptyDict))
  else match ← ask fun view => matchConsoleName view.stores.cfg cname with
    | some found => pure (some found)
    | none =>
        if ← ask fun view => .ok view.hubLive then pure (some (.none, .emptyDict))
        else match ← ask fun view => getDefaultExec view.stores.cfg with
          | some defn => pure (some (defn, .emptyDict))
          | none => pure none

/-- The definition the command goes on with and the level it grants; `none` where
it answers that there is no such console or no access to it. -/
def commandReads (rt : Runtime) (username cname : String) : Reading (Option (PyVal × Level)) := do
  match ← lookupReads cname with
  | none => pure none
  | some found => do
      match ← resolveReads rt username (found.1.orElse .emptyDict) found.2 with
      | none => pure none
      | some level => pure (some (found.1, level))

section

variable {known : View → Prop} {userMap cfg : PyVal}

theorem knownGroupsReads_settles (hmap : ∀ view, known view → view.stores.userMap = userMap)
    (username : String) :
    Settles known (knownGroupsReads username) (knownGroups userMap username) := by
  unfold knownGroupsReads knownGroups
  refine .bind (settles_ask fun view hview => by rw [hmap view hview]) fun found _ => ?_
  cases found with
  | false => exact rfl
  | true =>
      refine .bind (settles_ask fun view hview => by rw [hmap view hview]) fun groups _ => ?_
      exact .bind rfl fun keys _ => rfl

theorem roleReads_settles (hmap : ∀ view, known view → view.stores.userMap = userMap)
    (username : String) : Settles known (roleReads username) (getRole userMap username) := by
  unfold roleReads getRole
  refine .bind (settles_ask fun view hview => by rw [hmap view hview]) fun groups _ => ?_
  apply settles_ask
  intro view hview
  rw [hmap view hview]

/-- On a user map that stands still the readings are the access decision. -/
theorem resolveReads_settles (hmap : ∀ view, known view → view.stores.userMap = userMap)
    (rt : Runtime) (username : String) (consoleDef templateVars : PyVal) :
    Settles known (resolveReads rt username consoleDef templateVars)
      (resolveAccess rt userMap username consoleDef templateVars) := by
  unfold resolveReads resolveAccess
  refine .bind (knownGroupsReads_settles hmap username) fun userGroups _ => ?_
  cases userGroups with
  | none => exact rfl
  | some userGroups =>
      refine .bind rfl fun rwList _ => .bind rfl fun roList _ => ?_
      cases hlists : rwList.truthy || roList.truthy with
      | true => exact rfl
      | false => exact roleReads_settles hmap username

theorem lookupReads_settles {hubLive : Bool} (hcfg : ∀ view, known view → view.stores.cfg = cfg)
    (hhub : ∀ view, known view → view.hubLive = hubLive) (cname : String) :
    Settles known (lookupReads cname) (consoleLookup cfg cname hubLive) := by
  unfold lookupReads consoleLookup
  refine .bind (settles_ask fun view hview => by rw [hcfg view hview]) fun defn _ => ?_
  cases defn.isNone with
  | false => exact rfl
  | true =>
      refine .bind (settles_ask fun view hview => by rw [hcfg view hview]) fun found _ => ?_
      cases found with
      | some found => exact rfl
      | none =>
          refine .ask_bind (fun view hview => by rw [hhub view hview]) ?_
          cases hubLive with
          | true => exact rfl
          | false =>
              refine Settles.bind (settles_ask fun view hview => by rw [hcfg view hview]) ?_
              intro defn _
              cases defn <;> exact rfl

/-- The name of an explicit console is looked up by one reading, whatever hubs
there are. -/
theorem lookupReads_explicit {defn : PyVal}
    (hcfg : ∀ view, known view → view.stores.cfg = cfg) {cname : String}
    (hexplicit : explicitConsole cfg cname = .ok defn) (hsome : defn.isNone = false) :
    Settles known (lookupReads cname) (.ok (some (defn, .emptyDict))) := by
  unfold lookupReads
  refine .ask_bind (fun view hview => by rw [hcfg view hview, hexplicit]) ?_
  rw [hsome]
  exact rfl

end

/-- Readings that all see the same are the command's own decision. -/
theorem consoleCommand_of_run {rt : Runtime} {view : View} {username cname : String}
    {defn : PyVal} {level : Level}
    (h : (commandReads rt username cname).run view = .ok (some (defn, level)))
    (hubLiveLater : Bool) :
    consoleCommand rt view.stores.userMap view.stores.cfg username cname view.hubLive
      hubLiveLater = activate defn level hubLiveLater := by
  have hsettles : Settles (· = view) (commandReads rt username cname) (do
      match ← consoleLookup view.stores.cfg cname view.hubLive with
      | none => pure none
      | some found => do
          match ← decision rt view.stores.userMap username found with
          | none => pure none
          | some level => pure (some (found.1, level))) := by
    refine .bind (lookupReads_settles (fun other hother => by rw [hother])
      (fun other hother => by rw [hother]) cname) fun found _ => ?_
    cases found with
    | none => exact rfl
    | some found =>
        have hdecision : Settles (· = view)
            (resolveReads rt username (found.1.orElse .emptyDict) found.2)
            (decision rt view.stores.userMap username found) :=
          resolveReads_settles (fun other hother => by rw [hother]) rt username _ _
        refine .bind hdecision fun level _ => ?_
        cases level <;> exact rfl
  rw [hsettles.run rfl] at h
  obtain ⟨found, hlookup, h⟩ := bind_eq_ok.mp h
  cases found with
  | none => cases h
  | some found =>
      obtain ⟨granted, hdecision, h⟩ := bind_eq_ok.mp h
      cases granted with
      | none => cases h
      | some granted =>
          cases h
          simp [consoleCommand, hlookup, hdecision, bind, Except.bind]

end Vnctlsd.Worker.ConsoleReads
