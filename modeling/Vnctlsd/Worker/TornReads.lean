import Vnctlsd.Membership
import Vnctlsd.Worker.ConsoleCommand

/-! The `console` command while the push listener replaces the config and the user map.
Every read takes its store's lock for itself, so one decision may see several values of
a store, the later reads later ones. -/
namespace Vnctlsd.Worker.TornReads
open Vnctlsd.Python ConsoleConfigStore UserMapStore ACLResolver ConsoleCommand

/-- `consoleLookup` with the value of the config at each of its reads: that of the
explicit consoles, that of the patterns and that of the default backend. -/
def consoleLookupAt (cfgAt : Nat → PyVal) (cname : String) (hubLive : Bool) :
    Py (Option (PyVal × PyVal)) := do
  let defn ← explicitConsole (cfgAt 0) cname
  if !defn.isNone then return some (defn, .emptyDict)
  match ← matchConsoleName (cfgAt 1) cname with
  | some found => pure (some found)
  | none =>
      if hubLive then pure (some (.none, .emptyDict))
      else match ← getDefaultExec (cfgAt 2) with
        | some defn => pure (some (defn, .emptyDict))
        | none => pure none

/-- `resolveAccess` with the value of the user map at each of its reads: that of
`user_exists`, the `get_groups` for the lists, the one of `get_role`, and that of the
roles of the groups. -/
def resolveAccessAt (rt : Runtime) (mapAt : Nat → PyVal) (username : String)
    (consoleDef templateVars : PyVal) : Py (Option Level) := do
  if ← userExists (mapAt 0) username then
    let groups ← getGroups (mapAt 1) username
    let userGroups ← groups.mapM PyVal.toKey
    let rwList ← consoleDef.get "rw" .emptyList
    let roList ← consoleDef.get "ro" .emptyList
    if rwList.truthy || roList.truthy then
      listLevel rt username userGroups templateVars rwList roList
    else getRoleForGroups (mapAt 3) (← getGroups (mapAt 2) username)
  else pure none

def consoleCommandAt (rt : Runtime) (cfgAt mapAt : Nat → PyVal) (username cname : String)
    (hubLive hubLiveLater : Bool) : Py Outcome := do
  match ← consoleLookupAt cfgAt cname hubLive with
  | none => pure .notFound
  | some found => do
      match ← resolveAccessAt rt mapAt username (found.1.orElse .emptyDict) found.2 with
      | none => pure .denied
      | some level => activate found.1 level hubLiveLater

/-- The level that the command lets the user in with. -/
def Outcome.level : Outcome → Option Level
  | .spawn level | .attach level => some level
  | _ => none

theorem consoleLookupAt_const (cfg : PyVal) (cname : String) (hubLive : Bool) :
    consoleLookupAt (fun _ => cfg) cname hubLive = consoleLookup cfg cname hubLive := rfl

theorem resolveAccessAt_const (rt : Runtime) (userMap : PyVal) (username : String)
    (consoleDef templateVars : PyVal) :
    resolveAccessAt rt (fun _ => userMap) username consoleDef templateVars =
      resolveAccess rt userMap username consoleDef templateVars := by
  unfold resolveAccessAt resolveAccess knownGroups getRole
  cases userExists userMap username with
  | error e => rfl
  | ok known =>
      cases known with
      | false => rfl
      | true =>
          cases hgroups : getGroups userMap username with
          | error e => simp [bind, Except.bind]
          | ok groups =>
              cases hkeys : groups.mapM PyVal.toKey with
              | error e => simp [hkeys, bind, Except.bind]
              | ok keys => simp [hkeys, bind, Except.bind, pure, Except.pure]

/-- Without an update the command is the one that reads each store once. -/
theorem consoleCommandAt_const (rt : Runtime) (cfg userMap : PyVal) (username cname : String)
    (hubLive hubLiveLater : Bool) :
    consoleCommandAt rt (fun _ => cfg) (fun _ => userMap) username cname hubLive hubLiveLater =
      consoleCommand rt userMap cfg username cname hubLive hubLiveLater := by
  unfold consoleCommandAt consoleCommand
  rw [consoleLookupAt_const]
  cases hfound : consoleLookup cfg cname hubLive with
  | error e => rfl
  | ok found =>
      cases found with
      | none => rfl
      | some found =>
          have haccess := resolveAccessAt_const rt userMap username
            (found.1.orElse PyVal.emptyDict) found.2
          exact congrArg (fun access => access >>= fun
            | none => pure .denied
            | some level => activate found.1 level hubLiveLater) haccess

/-! The definition. -/

/-- An update has defined the name behind the read that would have found it. -/
def DefinedMeanwhile (cfgAt : Nat → PyVal) (cname : String) (hubLive : Bool) : Prop :=
  explicitConsole (cfgAt 0) cname = .ok .none ∧
    (explicitConsole (cfgAt 1) cname ≠ .ok .none ∨
      matchConsoleName (cfgAt 1) cname = .ok none ∧ hubLive = false ∧
        ¬ Undefined (cfgAt 2) cname)

theorem lookup_moment {cfgAt : Nat → PyVal} {cname : String} {hubLive : Bool}
    {found : PyVal × PyVal} (h : consoleLookupAt cfgAt cname hubLive = .ok (some found)) :
    (∃ i, i < 3 ∧ consoleLookup (cfgAt i) cname hubLive = .ok (some found)) ∨
      DefinedMeanwhile cfgAt cname hubLive := by
  obtain ⟨defn, hexplicit, h⟩ := bind_eq_ok.mp h
  cases hnone : defn.isNone with
  | false =>
      rw [hnone] at h
      cases h
      refine .inl ⟨0, by decide, ?_⟩
      simp [consoleLookup, hexplicit, hnone, bind, Except.bind, pure, Except.pure]
  | true =>
      obtain rfl := (PyVal.isNone_eq_true_iff defn).mp hnone
      obtain ⟨matched, hmatch, h⟩ := bind_eq_ok.mp h
      by_cases hlater : explicitConsole (cfgAt 1) cname = .ok .none
      · cases matched with
        | some pattern =>
            cases h
            refine .inl ⟨1, by decide, ?_⟩
            simp [consoleLookup, hlater, hmatch, bind, Except.bind, pure, Except.pure]
        | none =>
            cases hubLive with
            | true =>
                cases h
                exact .inl ⟨1, by decide, consoleLookup_undefined_live ⟨hlater, hmatch⟩⟩
            | false =>
                by_cases hundefined : Undefined (cfgAt 2) cname
                · refine .inl ⟨2, by decide, ?_⟩
                  rw [consoleLookup_undefined_idle hundefined]
                  obtain ⟨default, hdefault, h⟩ := bind_eq_ok.mp h
                  rw [hdefault]
                  cases default with
                  | some defn => exact h
                  | none => cases h
                · exact .inr ⟨hexplicit, .inr ⟨hmatch, rfl, hundefined⟩⟩
      · exact .inr ⟨hexplicit, .inl hlater⟩

/-! The decision. -/

section
variable {rt : Runtime} {username : String} {vars : PyVal} {userGroups userGroups' : List Key}

/-- What matches with some groups matches with more, whatever the entries that are not
reached. -/
theorem matchesAny_subset (hgroups : ∀ key ∈ userGroups, key ∈ userGroups')
    {principals : List PyVal} {matched : Bool}
    (h : matchesAny rt username userGroups vars principals = .ok matched) :
    ∃ matched', matchesAny rt username userGroups' vars principals = .ok matched' ∧
      (matched = true → matched' = true) := by
  induction principals generalizing matched with
  | nil => exact ⟨false, rfl, fun hmatched => by cases h; exact hmatched⟩
  | cons principal rest ih =>
      obtain ⟨text, htext, h⟩ := bind_eq_ok.mp h
      by_cases hhit : text = "*" ∨ text = username ∨ Key.str text ∈ userGroups'
      · refine ⟨true, ?_, fun _ => rfl⟩
        rw [matchesAny]
        simp only [htext, bind, Except.bind, List.contains_iff_mem]
        rcases hhit with hstar | hname | hgroup
        · rw [if_pos hstar]
          rfl
        · rw [if_pos hname]
          split <;> rfl
        · rw [if_pos hgroup]
          split
          · rfl
          · split <;> rfl
      · obtain ⟨hstar, hname, hgroup⟩ := not_or.mp hhit |>.imp id not_or.mp
        have hgroup' : Key.str text ∉ userGroups := fun hmem => hgroup (hgroups _ hmem)
        simp only [List.contains_iff_mem, if_neg hstar, if_neg hname, if_neg hgroup'] at h
        obtain ⟨matched', hmatched', hmono⟩ := ih h
        refine ⟨matched', ?_, hmono⟩
        rw [matchesAny]
        simpa only [htext, bind, Except.bind, List.contains_iff_mem, if_neg hstar, if_neg hname,
          if_neg hgroup] using hmatched'

theorem matchesPrincipal_subset (hgroups : ∀ key ∈ userGroups, key ∈ userGroups')
    {principals : PyVal} {matched : Bool}
    (h : matchesPrincipal rt username userGroups vars principals = .ok matched) :
    ∃ matched', matchesPrincipal rt username userGroups' vars principals = .ok matched' ∧
      (matched = true → matched' = true) := by
  obtain ⟨items, hitems, h⟩ := bind_eq_ok.mp h
  obtain ⟨matched', hmatched', hmono⟩ := matchesAny_subset hgroups h
  exact ⟨matched', bind_eq_ok.mpr ⟨items, hitems, hmatched'⟩, hmono⟩

theorem listLevel_subset (hgroups : ∀ key ∈ userGroups, key ∈ userGroups')
    {rwList roList : PyVal} {level : Level}
    (h : listLevel rt username userGroups vars rwList roList = .ok (some level)) :
    ∃ level', listLevel rt username userGroups' vars rwList roList = .ok (some level') ∧
      level ≤ level' := by
  have hwrite : ∀ other : Level, other ≤ .readWrite := by
    rintro (_ | _) <;> decide
  obtain ⟨top, htop, h⟩ := bind_eq_ok.mp h
  obtain ⟨top', htop', hmono⟩ := matchesPrincipal_subset hgroups htop
  cases top' with
  | true => exact ⟨.readWrite, bind_eq_ok.mpr ⟨true, htop', rfl⟩, hwrite level⟩
  | false =>
      cases top with
      | true => cases hmono rfl
      | false =>
          obtain ⟨any, hany, h⟩ := bind_eq_ok.mp h
          obtain ⟨any', hany', hmono'⟩ := matchesPrincipal_subset hgroups hany
          cases any with
          | false => cases h
          | true =>
              cases h
              rw [hmono' rfl] at hany'
              exact ⟨.readOnly,
                bind_eq_ok.mpr ⟨false, htop', bind_eq_ok.mpr ⟨true, hany', rfl⟩⟩,
                Nat.le_refl _⟩

end

/-- Only a user that the map knows has groups in it. -/
theorem userExists_of_groups {userMap : PyVal} {username : String} {groups : List PyVal}
    (h : getGroups userMap username = .ok groups) (hne : groups ≠ []) :
    userExists userMap username = .ok true := by
  obtain ⟨users, husers, h⟩ := bind_eq_ok.mp h
  obtain ⟨entry, hentry, h⟩ := bind_eq_ok.mp h
  refine bind_eq_ok.mpr ⟨users, husers, ?_⟩
  obtain ⟨entries, rfl⟩ := PyVal.eq_dict_of_get_ok hentry
  cases hlookup : entries.lookup (.str username) with
  | some found => simp [PyVal.contains, hlookup]
  | none =>
      simp only [PyVal.get, hlookup, Option.getD_none] at hentry
      cases hentry
      cases h
      exact absurd rfl hne

/-- Where the user's role decides, his groups are those of one map and their roles those
of a later one. -/
def RoleOfTwoMaps (mapAt : Nat → PyVal) (username : String) (level : Level) : Prop :=
  mapAt 2 ≠ mapAt 3 ∧ ∃ groups, getGroups (mapAt 2) username = .ok groups ∧
    getRoleForGroups (mapAt 3) groups = .ok (some level)

theorem access_of_role {rt : Runtime} {userMap consoleDef vars rwList roList : PyVal}
    {username : String} {level : Level} (hrw : consoleDef.get "rw" .emptyList = .ok rwList)
    (hro : consoleDef.get "ro" .emptyList = .ok roList)
    (hlists : (rwList.truthy || roList.truthy) = false)
    (h : getRole userMap username = .ok (some level)) :
    resolveAccess rt userMap username consoleDef vars = .ok (some level) := by
  obtain ⟨defs, groups, roles, hdefs, hgroups, hroles, hne, -⟩ := getRole_eq_some_iff.mp h
  have hgroupsNe : groups ≠ [] := by
    rintro rfl
    cases hroles
    exact hne rfl
  have hkeys : ∃ keys, groups.mapM PyVal.toKey = .ok keys := by
    refine mapM_returns_iff.mpr fun group hgroup => ?_
    obtain ⟨keys, hkeys⟩ := Membership.collectRoles_returns_iff.mp ⟨roles, hroles⟩ group hgroup
    exact Membership.toKey_of_rolesOf hkeys
  obtain ⟨keys, hkeys⟩ := hkeys
  have hknown := Membership.knownGroups_some_iff.mpr
    ⟨userExists_of_groups hgroups hgroupsNe, groups, hgroups, hkeys⟩
  rw [resolveAccess_of_no_lists rt userMap username consoleDef vars hknown hrw hro hlists, h]

/-- The map can be read for the user. -/
def Readable (userMap : PyVal) (username : String) : Prop :=
  ∃ known, knownGroups userMap username = .ok known

theorem access_moment {rt : Runtime} {mapAt : Nat → PyVal} {username : String}
    {consoleDef vars : PyVal} {level : Level} (hreads : Readable (mapAt 0) username)
    (h : resolveAccessAt rt mapAt username consoleDef vars = .ok (some level)) :
    (∃ i, i < 4 ∧ ∃ level', resolveAccess rt (mapAt i) username consoleDef vars =
      .ok (some level') ∧ level ≤ level') ∨ RoleOfTwoMaps mapAt username level := by
  obtain ⟨known, hknown, h⟩ := bind_eq_ok.mp h
  cases known with
  | false => cases h
  | true =>
      obtain ⟨groups, hgroups, h⟩ := bind_eq_ok.mp h
      obtain ⟨userGroups, huserGroups, h⟩ := bind_eq_ok.mp h
      obtain ⟨rwList, hrw, h⟩ := bind_eq_ok.mp h
      obtain ⟨roList, hro, h⟩ := bind_eq_ok.mp h
      cases hlists : rwList.truthy || roList.truthy with
      | true =>
          rw [hlists, if_pos rfl] at h
          left
          by_cases hempty : groups = []
          · -- a user removed meanwhile has no groups left, and had at least that before
            subst hempty
            cases huserGroups
            obtain ⟨before, hbefore⟩ := hreads
            cases before with
            | none => rw [Membership.userExists_of_unknown hbefore] at hknown; cases hknown
            | some keys =>
                have hnone : ∀ key ∈ ([] : List Key), key ∈ keys :=
                  fun _ hmem => absurd hmem List.not_mem_nil
                obtain ⟨level', hlevel', hle⟩ := listLevel_subset hnone h
                refine ⟨0, by decide, level', ?_, hle⟩
                rw [resolveAccess_of_lists rt _ _ _ _ hbefore hrw hro hlists, hlevel']
          · have hlater := Membership.knownGroups_some_iff.mpr
              ⟨userExists_of_groups hgroups hempty, groups, hgroups, huserGroups⟩
            refine ⟨1, by decide, level, ?_, Nat.le_refl _⟩
            rw [resolveAccess_of_lists rt _ _ _ _ hlater hrw hro hlists, h]
      | false =>
          rw [hlists, if_neg Bool.false_ne_true] at h
          obtain ⟨roleGroups, hroleGroups, h⟩ := bind_eq_ok.mp h
          by_cases hsame : mapAt 2 = mapAt 3
          · have hrole : getRole (mapAt 2) username = .ok (some level) :=
              bind_eq_ok.mpr ⟨roleGroups, hroleGroups, hsame ▸ h⟩
            exact .inl ⟨2, by decide, level, access_of_role hrw hro hlists hrole, Nat.le_refl _⟩
          · exact .inr ⟨hsame, roleGroups, hroleGroups, h⟩

theorem level_of_activate {defn : PyVal} {level granted : Level} {hubLive : Bool}
    {outcome : Outcome} (h : activate defn granted hubLive = .ok outcome)
    (hlevel : Outcome.level outcome = some level) : level = granted := by
  unfold activate at h
  split at h
  · cases h
    exact (Option.some.inj hlevel).symm
  · split at h
    · cases h
      cases hlevel
    · obtain ⟨ctype, -, h⟩ := bind_eq_ok.mp h
      split at h
      · cases h
        exact (Option.some.inj hlevel).symm
      · cases h
        cases hlevel

/-- However updates of the config and of the user map fall between its reads, what the
command lets a user in with is what the definition of one moment gives him under the map
of one moment, but in two cases: an update has given the name its definition behind the
read that looked for it, or the user's role is taken from the groups of one map and the
roles of another. -/
theorem granted_at_a_moment {rt : Runtime} {cfgAt mapAt : Nat → PyVal} {username cname : String}
    {hubLive hubLiveLater : Bool} {outcome : Outcome} {level : Level}
    (hreads : Readable (mapAt 0) username)
    (h : consoleCommandAt rt cfgAt mapAt username cname hubLive hubLiveLater = .ok outcome)
    (hlevel : Outcome.level outcome = some level) :
    ∃ found, ((∃ i, i < 3 ∧ consoleLookup (cfgAt i) cname hubLive = .ok (some found)) ∨
        DefinedMeanwhile cfgAt cname hubLive) ∧
      ((∃ i, i < 4 ∧ ∃ level', decision rt (mapAt i) username found = .ok (some level') ∧
          level ≤ level') ∨
        RoleOfTwoMaps mapAt username level) := by
  obtain ⟨looked, hlookup, h⟩ := bind_eq_ok.mp h
  cases looked with
  | none =>
      cases h
      cases hlevel
  | some found =>
      obtain ⟨granted, haccess, h⟩ := bind_eq_ok.mp h
      cases granted with
      | none =>
          cases h
          cases hlevel
      | some granted =>
          obtain rfl := level_of_activate h hlevel
          exact ⟨found, lookup_moment hlookup, access_moment hreads haccess⟩

def openLab : PyVal := .ofFields [("consoles", .ofFields [("lab01", .ofFields [])])]

/-- The student's group has no role yet. -/
def usersBefore : PyVal := .ofFields [
  ("users", .ofFields [("student01", .ofFields [("groups", .list [.str "lab-a"])])]),
  ("groups", .ofFields [("lab-a", .ofFields [])])]

/-- The group has one, and the student is no longer in it. -/
def usersAfter : PyVal := .ofFields [
  ("users", .ofFields [("student01", .ofFields [("groups", .list [])])]),
  ("groups", .ofFields [("lab-a", .ofFields [("role", .str "read_write")])])]

def updatedAt (n : Nat) (before after : PyVal) (i : Nat) : PyVal := if i < n then before else after

/-- Neither map lets the student in, and the update between the last two reads does. -/
theorem granted_at_a_moment_student :
    consoleCommand .plain usersBefore openLab "student01" "lab01" true true = .ok .denied ∧
    consoleCommand .plain usersAfter openLab "student01" "lab01" true true = .ok .denied ∧
    ∃ found, ((∃ i, i < 3 ∧ consoleLookup openLab "lab01" true = .ok (some found)) ∨
        DefinedMeanwhile (fun _ => openLab) "lab01" true) ∧
      ((∃ i, i < 4 ∧ ∃ level',
          decision .plain (updatedAt 3 usersBefore usersAfter i) "student01" found =
            .ok (some level') ∧ .readWrite ≤ level') ∨
        RoleOfTwoMaps (updatedAt 3 usersBefore usersAfter) "student01" .readWrite) := by
  have hgranted : consoleCommandAt .plain (fun _ => openLab)
      (updatedAt 3 usersBefore usersAfter) "student01" "lab01" true true =
        .ok (.attach .readWrite) := by decide
  exact ⟨by decide, by decide, granted_at_a_moment ⟨_, rfl⟩ hgranted rfl⟩

/-- A pattern keeps the console for the administrators. -/
def patternBefore : PyVal := .ofFields [("console_patterns", .list [.ofFields [
  ("console_name", .str "vm-{name}"), ("rw", .list [.str "admins"])]])]

/-- So does the definition of its own that takes the pattern's place. -/
def explicitAfter : PyVal := .ofFields [("consoles", .ofFields [
  ("vm-lab01", .ofFields [("rw", .list [.str "admins"])])])]

/-- Before and after the reload the student is denied; during it his role lets him in. -/
theorem definedMeanwhile_student :
    ∃ before, update .plain patternBefore = .ok before ∧
      consoleCommand .plain labUsers before "student01" "vm-lab01" true true = .ok .denied ∧
      consoleCommand .plain labUsers explicitAfter "student01" "vm-lab01" true true =
        .ok .denied ∧
      consoleCommandAt .plain (updatedAt 1 before explicitAfter) (fun _ => labUsers) "student01"
        "vm-lab01" true true = .ok (.attach .readWrite) :=
  ⟨_, rfl, by decide, by decide, by decide⟩

end Vnctlsd.Worker.TornReads
