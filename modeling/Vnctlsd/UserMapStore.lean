import Vnctlsd.Python.Value

/-! The user map: who exists, in which groups, and the role the groups give. -/
namespace Vnctlsd.UserMapStore
open Vnctlsd.Python

/-- What a user may do on a console; no access at all is `none` of `Option Level`. -/
inductive Level where
  | readOnly
  | readWrite
  deriving DecidableEq

def Level.rank : Level → Nat
  | .readOnly => 1
  | .readWrite => 2

instance : LE Level := ⟨fun left right => left.rank ≤ right.rank⟩

instance (left right : Level) : Decidable (left ≤ right) :=
  inferInstanceAs (Decidable (left.rank ≤ right.rank))

/-- What the parser gives; an empty file is an empty map. -/
def loadUserMap (content : PyVal) : PyVal := content.orElse .emptyDict

def dictElement (index : Nat) (element : PyVal) : Py (Key × PyVal) :=
  match element.iter with
  | .error _ => raise .typeError
      s!"cannot convert dictionary update sequence element #{index} to a sequence"
  | .ok [key, value] => key.toKey.map fun key => (key, value)
  | .ok items => raise .valueError
      s!"dictionary update sequence element #{index} has length {items.length}; 2 is required"

def dictFrom (entries : List (Key × PyVal)) (index : Nat) :
    List PyVal → Py (List (Key × PyVal))
  | [] => .ok entries
  | element :: rest => do
      let entry ← dictElement index element
      dictFrom (PyVal.insertKey entries entry.1 entry.2) (index + 1) rest

/-- `dict(self._map)`, which also makes a dictionary of a list of pairs. -/
def getMap (map : PyVal) : Py PyVal :=
  match map with
  | .dict entries => .ok (.dict entries)
  | other => do
      let entries ← dictFrom [] 0 (← other.iter)
      pure (.dict entries)

def userExists (map : PyVal) (username : String) : Py Bool := do
  (← map.get "users" .emptyDict).contains username

def getGroups (map : PyVal) (username : String) : Py (List PyVal) := do
  let entry ← (← map.get "users" .emptyDict).get username .emptyDict
  match entry with
  | .dict _ => do (← entry.get "groups" .emptyList).iter
  | _ => pure []

def groupDef (groupDefs group : PyVal) : Py PyVal :=
  match groupDefs with
  | .dict entries => do
      let key ← group.toKey
      pure ((entries.lookup key).getD .emptyDict)
  | other => other.noAttribute "get"

def collectRoles (groupDefs : PyVal) : List PyVal → Py (List Key)
  | [] => .ok []
  | group :: rest => do
      let gdef ← groupDef groupDefs group
      let role ← match gdef with
        | .dict _ => gdef.get "role" .none
        | _ => pure .none
      let roles ← if role.truthy then (role.toKey).map fun key => [key] else pure []
      let others ← collectRoles groupDefs rest
      pure (roles ++ others)

def getRoleForGroups (map : PyVal) (groups : List PyVal) : Py (Option Level) := do
  let groupDefs ← map.get "groups" .emptyDict
  if groups.isEmpty then return none
  let roles ← collectRoles groupDefs groups
  if roles.isEmpty then return none
  if roles.contains (.str "read_write") then return some .readWrite
  return some .readOnly

def getRole (map : PyVal) (username : String) : Py (Option Level) := do
  getRoleForGroups map (← getGroups map username)

def roleOfDef (gdef : PyVal) : Py PyVal :=
  match gdef with
  | .dict _ => gdef.get "role" .none
  | _ => .ok .none

def roleKeys (role : PyVal) : Py (List Key) :=
  if role.truthy then role.toKey.map fun key => [key] else .ok []

theorem collectRoles_cons (groupDefs group : PyVal) (rest : List PyVal) :
    collectRoles groupDefs (group :: rest) =
      groupDef groupDefs group >>= fun gdef => roleOfDef gdef >>= fun role =>
        roleKeys role >>= fun roles => collectRoles groupDefs rest >>= fun others =>
          .ok (roles ++ others) := by
  have hkeys (role : PyVal) (next : List Key → Py (List Key)) :
      (if role.truthy = true then role.toKey.map (fun key => [key]) >>= next
        else (pure [] : Py (List Key)) >>= next) = roleKeys role >>= next := by
    unfold roleKeys
    split <;> rfl
  simp only [collectRoles, hkeys]
  cases groupDef groupDefs group with
  | error e => rfl
  | ok gdef => cases gdef <;> rfl

theorem getRole_eq_some_iff {map : PyVal} {username : String} {level : Level} :
    getRole map username = .ok (some level) ↔
      ∃ groupDefs groups roles, map.get "groups" .emptyDict = .ok groupDefs ∧
        getGroups map username = .ok groups ∧ collectRoles groupDefs groups = .ok roles ∧
        roles ≠ [] ∧
        level = if roles.contains (.str "read_write") then .readWrite else .readOnly := by
  constructor
  · intro h
    obtain ⟨groups, hgroups, h⟩ := bind_eq_ok.mp h
    obtain ⟨groupDefs, hdefs, h⟩ := bind_eq_ok.mp h
    cases hempty : groups.isEmpty with
    | true => simp [hempty, pure, Except.pure] at h
    | false =>
        rw [hempty] at h
        obtain ⟨roles, hroles, h⟩ := bind_eq_ok.mp h
        cases roles with
        | nil => cases h
        | cons role rest =>
            refine ⟨groupDefs, groups, _, hdefs, hgroups, hroles, List.cons_ne_nil role rest, ?_⟩
            simp only [List.isEmpty_cons, Bool.false_eq_true, if_false] at h
            split at h <;> cases h <;> simp_all
  · rintro ⟨groupDefs, groups, roles, hdefs, hgroups, hroles, hne, rfl⟩
    have hgroupsNe : groups.isEmpty = false := by
      cases groups with
      | nil =>
          cases hroles
          exact absurd rfl hne
      | cons group rest => rfl
    have hrolesNe : roles.isEmpty = false := by
      cases roles with
      | nil => exact absurd rfl hne
      | cons role rest => rfl
    simp only [getRole, getRoleForGroups, hgroups, hdefs, hroles, hgroupsNe, hrolesNe, bind,
      Except.bind, Bool.false_eq_true, if_false]
    split <;> rfl

end Vnctlsd.UserMapStore
