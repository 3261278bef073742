import Vnctlsd.ConsoleConfigStore
import Vnctlsd.UserMapStore

/-! The access decision: a console definition with `rw` or `ro` entries decides
by them alone, any other leaves the decision to the user's role. -/
namespace Vnctlsd.ACLResolver
open Vnctlsd.Python ConsoleConfigStore UserMapStore

/-- A principal with its template variables filled in; one that lacks a variable
stands for itself. -/
def resolvePrincipal (rt : Runtime) (templateVars principal : PyVal) : Py String :=
  onKeyError (Format.formatStar rt principal templateVars) (rt.str principal)

def matchesAny (rt : Runtime) (username : String) (userGroups : List Key)
    (templateVars : PyVal) : List PyVal → Py Bool
  | [] => .ok false
  | principal :: rest => do
      let resolved ← resolvePrincipal rt templateVars principal
      if resolved = "*" then return true
      if resolved = username then return true
      if userGroups.contains (.str resolved) then return true
      matchesAny rt username userGroups templateVars rest

def matchesPrincipal (rt : Runtime) (username : String) (userGroups : List Key)
    (templateVars principals : PyVal) : Py Bool := do
  matchesAny rt username userGroups templateVars (← principals.iter)

/-- The user's groups as a set, or `none` for a user the map does not know. -/
def knownGroups (userMap : PyVal) (username : String) : Py (Option (List Key)) := do
  if ← userExists userMap username then
    let groups ← getGroups userMap username
    let keys ← groups.mapM PyVal.toKey
    pure (some keys)
  else pure none

def listLevel (rt : Runtime) (username : String) (userGroups : List Key)
    (templateVars rwList roList : PyVal) : Py (Option Level) := do
  if ← matchesPrincipal rt username userGroups templateVars rwList then
    return some .readWrite
  if ← matchesPrincipal rt username userGroups templateVars roList then
    return some .readOnly
  return none

def resolveAccess (rt : Runtime) (userMap : PyVal) (username : String)
    (consoleDef templateVars : PyVal) : Py (Option Level) := do
  match ← knownGroups userMap username with
  | none => pure none
  | some userGroups => do
      let rwList ← consoleDef.get "rw" .emptyList
      let roList ← consoleDef.get "ro" .emptyList
      if rwList.truthy || roList.truthy then
        listLevel rt username userGroups templateVars rwList roList
      else getRole userMap username

theorem resolveAccess_of_no_lists (rt : Runtime) (userMap : PyVal) (username : String)
    (consoleDef templateVars : PyVal) {rwList roList : PyVal} {userGroups : List Key}
    (hknown : knownGroups userMap username = .ok (some userGroups))
    (hrw : consoleDef.get "rw" .emptyList = .ok rwList)
    (hro : consoleDef.get "ro" .emptyList = .ok roList)
    (hempty : (rwList.truthy || roList.truthy) = false) :
    resolveAccess rt userMap username consoleDef templateVars = getRole userMap username := by
  simp [resolveAccess, hknown, hrw, hro, hempty, bind, Except.bind]

theorem resolveAccess_of_lists (rt : Runtime) (userMap : PyVal) (username : String)
    (consoleDef templateVars : PyVal) {rwList roList : PyVal} {userGroups : List Key}
    (hknown : knownGroups userMap username = .ok (some userGroups))
    (hrw : consoleDef.get "rw" .emptyList = .ok rwList)
    (hro : consoleDef.get "ro" .emptyList = .ok roList)
    (hlists : (rwList.truthy || roList.truthy) = true) :
    resolveAccess rt userMap username consoleDef templateVars =
      listLevel rt username userGroups templateVars rwList roList := by
  simp [resolveAccess, hknown, hrw, hro, hlists, bind, Except.bind]

theorem resolveAccess_unknown {userMap : PyVal} {username : String}
    (rt : Runtime) (consoleDef templateVars : PyVal)
    (h : knownGroups userMap username = .ok none) :
    resolveAccess rt userMap username consoleDef templateVars = .ok none := by
  simp [resolveAccess, h, bind, Except.bind, pure, Except.pure]

/-- How a decision comes about. -/
inductive Decided (rt : Runtime) (userMap : PyVal) (username : String)
    (consoleDef templateVars : PyVal) : Option Level → Prop where
  | unknownUser : knownGroups userMap username = .ok none →
      Decided rt userMap username consoleDef templateVars none
  | byLists {userGroups : List Key} {rwList roList : PyVal} {level : Option Level} :
      knownGroups userMap username = .ok (some userGroups) →
      consoleDef.get "rw" .emptyList = .ok rwList → consoleDef.get "ro" .emptyList = .ok roList →
      (rwList.truthy || roList.truthy) = true →
      listLevel rt username userGroups templateVars rwList roList = .ok level →
      Decided rt userMap username consoleDef templateVars level
  | byRole {userGroups : List Key} {rwList roList : PyVal} {level : Option Level} :
      knownGroups userMap username = .ok (some userGroups) →
      consoleDef.get "rw" .emptyList = .ok rwList → consoleDef.get "ro" .emptyList = .ok roList →
      (rwList.truthy || roList.truthy) = false →
      getRole userMap username = .ok level →
      Decided rt userMap username consoleDef templateVars level

theorem resolveAccess_iff {rt : Runtime} {userMap : PyVal} {username : String}
    {consoleDef templateVars : PyVal} {level : Option Level} :
    resolveAccess rt userMap username consoleDef templateVars = .ok level ↔
      Decided rt userMap username consoleDef templateVars level := by
  constructor
  · intro h
    obtain ⟨known, hknown, h⟩ := bind_eq_ok.mp h
    cases known with
    | none =>
        cases h
        exact .unknownUser hknown
    | some userGroups =>
        obtain ⟨rwList, hrw, h⟩ := bind_eq_ok.mp h
        obtain ⟨roList, hro, h⟩ := bind_eq_ok.mp h
        cases hlists : rwList.truthy || roList.truthy with
        | true =>
            rw [hlists, if_pos rfl] at h
            exact .byLists hknown hrw hro hlists h
        | false =>
            rw [hlists, if_neg Bool.false_ne_true] at h
            exact .byRole hknown hrw hro hlists h
  · intro h
    cases h with
    | unknownUser hknown => exact resolveAccess_unknown rt _ _ hknown
    | byLists hknown hrw hro hlists h =>
        rwa [resolveAccess_of_lists rt userMap username _ _ hknown hrw hro hlists]
    | byRole hknown hrw hro hlists h =>
        rwa [resolveAccess_of_no_lists rt userMap username _ _ hknown hrw hro hlists]

/-- A falsy definition on which the decision returns is an empty one. -/
theorem resolveAccess_orElse {rt : Runtime} {userMap defn vars : PyVal} {username : String}
    {level : Option Level} (h : resolveAccess rt userMap username defn vars = .ok level) :
    resolveAccess rt userMap username (defn.orElse .emptyDict) vars = .ok level := by
  cases resolveAccess_iff.mp h with
  | unknownUser hknown => exact resolveAccess_unknown rt _ _ hknown
  | byLists hknown hrw hro hlists hlevel =>
      obtain ⟨entries, rfl⟩ := PyVal.eq_dict_of_get_ok hrw
      rwa [PyVal.orElse_dict]
  | byRole hknown hrw hro hlists hlevel =>
      obtain ⟨entries, rfl⟩ := PyVal.eq_dict_of_get_ok hrw
      rwa [PyVal.orElse_dict]

end Vnctlsd.ACLResolver
