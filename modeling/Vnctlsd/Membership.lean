import Vnctlsd.ExplicitGrants

/-! How the access decision depends on membership: on the entries of the two lists and
on the user's groups as sets, and never to the user's disadvantage when he is in one
group more or one of his groups has a role at last. -/
namespace Vnctlsd.Membership
open Vnctlsd.Python UserMapStore ACLResolver ExplicitGrants

/-- What both ways of deciding come to: a reason for the higher level, and a reason for
any level at all. -/
def grade (top any : Bool) : Option Level :=
  if top then some .readWrite else if any then some .readOnly else none

theorem grade_mono {top top' any any' : Bool} (htop : top = true → top' = true)
    (hany : any = true → any' = true) : grade top any ≤ grade top' any' := by
  have hread : (some Level.readOnly : Option Level) ≤ some .readWrite :=
    Option.some_le_some.mpr (by decide)
  have hrefl : ∀ level : Option Level, level ≤ level := by
    rintro (_ | level)
    · exact Option.none_le
    · exact Option.some_le_some.mpr (Nat.le_refl _)
  unfold grade
  cases top with
  | true =>
      rw [htop rfl]
      exact hrefl _
  | false =>
      cases any with
      | false => exact Option.none_le
      | true =>
          rw [hany rfl]
          cases top' with
          | true => exact hread
          | false => exact hrefl _

/-- The entry lets a user with these groups in. -/
def hit (rt : Runtime) (username : String) (userGroups : List Key) (vars principal : PyVal) :
    Bool :=
  match resolvePrincipal rt vars principal with
  | .ok text => text = "*" ∨ text = username ∨ .str text ∈ userGroups
  | .error _ => false

def Expand (rt : Runtime) (vars : PyVal) (principals : List PyVal) : Prop :=
  ∀ principal ∈ principals, ∃ text, resolvePrincipal rt vars principal = .ok text

section

variable {rt : Runtime} {username : String} {vars : PyVal}

theorem matchesAny_eq {userGroups : List Key} {principals : List PyVal}
    (h : Expand rt vars principals) :
    matchesAny rt username userGroups vars principals =
      .ok (principals.any (hit rt username userGroups vars)) := by
  induction principals with
  | nil => rfl
  | cons principal rest ih =>
      obtain ⟨⟨text, htext⟩, hrest⟩ := List.forall_mem_cons.mp h
      rw [List.any_cons, hit, htext]
      simp only [matchesAny, htext, ih hrest, bind, Except.bind, List.contains_iff_mem]
      by_cases hstar : text = "*"
      · rw [if_pos hstar, decide_eq_true (.inl hstar)]
        rfl
      · rw [if_neg hstar]
        by_cases hname : text = username
        · rw [if_pos hname, decide_eq_true (.inr (.inl hname))]
          rfl
        · rw [if_neg hname]
          by_cases hgroup : .str text ∈ userGroups
          · rw [if_pos hgroup, decide_eq_true (.inr (.inr hgroup))]
            rfl
          · rw [if_neg hgroup, decide_eq_false (by simp [hstar, hname, hgroup]), Bool.false_or]

theorem hit_mono {userGroups userGroups' : List Key}
    (h : ∀ text, .str text ∈ userGroups → Key.str text ∈ userGroups') {principal : PyVal}
    (hhit : hit rt username userGroups vars principal = true) :
    hit rt username userGroups' vars principal = true := by
  unfold hit at hhit ⊢
  cases hresolve : resolvePrincipal rt vars principal with
  | error e => simp [hresolve] at hhit
  | ok text =>
      simp only [hresolve, decide_eq_true_eq] at hhit ⊢
      exact hhit.imp_right (Or.imp_right (h text))

end

/-- The same value, or two lists with the same members. -/
inductive SameMembers : PyVal → PyVal → Prop where
  | refl (value : PyVal) : SameMembers value value
  | lists {left right : List PyVal} : (∀ item, item ∈ left ↔ item ∈ right) →
      SameMembers (.list left) (.list right)

theorem SameMembers.truthy {left right : PyVal} (h : SameMembers left right) :
    left.truthy = right.truthy := by
  cases h with
  | refl => rfl
  | @lists left right h =>
      cases left with
      | nil =>
          have hnil : right = [] := List.eq_nil_iff_forall_not_mem.mpr fun item hitem =>
            List.not_mem_nil ((h item).mpr hitem)
          rw [hnil]
      | cons item rest =>
          have hne : right ≠ [] := List.ne_nil_of_mem ((h item).mp (List.mem_cons_self ..))
          cases right with
          | nil => exact absurd rfl hne
          | cons other rest => rfl

/-- The entries of a list that can be looked through all expand. -/
def EntriesExpand (rt : Runtime) (vars value : PyVal) : Prop :=
  ∀ items, value.iter = .ok items → Expand rt vars items

section

variable {rt : Runtime} {username : String} {vars : PyVal} {userGroups userGroups' : List Key}

theorem matchesPrincipal_eq {value : PyVal} (h : EntriesExpand rt vars value) :
    matchesPrincipal rt username userGroups vars value =
      value.iter.map fun items => items.any (hit rt username userGroups vars) := by
  unfold matchesPrincipal
  cases hiter : value.iter with
  | error e => rfl
  | ok items => exact matchesAny_eq (h items hiter)

theorem matchesPrincipal_congr {left right : PyVal} (hsame : SameMembers left right)
    (hexpand : EntriesExpand rt vars left)
    (hgroups : ∀ text, .str text ∈ userGroups ↔ Key.str text ∈ userGroups') :
    matchesPrincipal rt username userGroups vars left =
      matchesPrincipal rt username userGroups' vars right := by
  have hhit : hit rt username userGroups vars = hit rt username userGroups' vars := by
    funext principal
    rw [Bool.eq_iff_iff]
    exact ⟨hit_mono fun text => (hgroups text).mp, hit_mono fun text => (hgroups text).mpr⟩
  cases hsame with
  | refl => rw [matchesPrincipal_eq hexpand, matchesPrincipal_eq hexpand, hhit]
  | @lists left right h =>
      have hexpand' : EntriesExpand rt vars (.list right) := by
        intro items hitems principal hprincipal
        cases hitems
        exact hexpand left rfl principal ((h principal).mpr hprincipal)
      rw [matchesPrincipal_eq hexpand, matchesPrincipal_eq hexpand', hhit]
      refine congrArg Except.ok (Bool.eq_iff_iff.mpr ?_)
      simp only [List.any_eq_true, h]

/-- A longer list of groups can only add to what matches. -/
theorem matchesPrincipal_mono {value : PyVal} (hexpand : EntriesExpand rt vars value)
    (hgroups : ∀ text, .str text ∈ userGroups → Key.str text ∈ userGroups') {matched : Bool}
    (h : matchesPrincipal rt username userGroups vars value = .ok matched) :
    ∃ matched', matchesPrincipal rt username userGroups' vars value = .ok matched' ∧
      (matched = true → matched' = true) := by
  rw [matchesPrincipal_eq hexpand] at h ⊢
  obtain ⟨items, hitems, rfl⟩ := map_eq_ok.mp h
  refine ⟨_, map_eq_ok.mpr ⟨items, hitems, rfl⟩, fun hany => ?_⟩
  obtain ⟨principal, hmem, hhit⟩ := List.any_eq_true.mp hany
  exact List.any_eq_true.mpr ⟨principal, hmem, hit_mono hgroups hhit⟩

theorem listLevel_congr {rwList rwList' roList roList' : PyVal}
    (hrw : SameMembers rwList rwList') (hro : SameMembers roList roList')
    (hrwExpand : EntriesExpand rt vars rwList) (hroExpand : EntriesExpand rt vars roList)
    (hgroups : ∀ text, .str text ∈ userGroups ↔ Key.str text ∈ userGroups') :
    listLevel rt username userGroups vars rwList roList =
      listLevel rt username userGroups' vars rwList' roList' := by
  rw [listLevel, listLevel, matchesPrincipal_congr hrw hrwExpand hgroups,
    matchesPrincipal_congr hro hroExpand hgroups]

/-- The lists give a grade; the second one is looked through only if need be. -/
theorem listLevel_eq_ok_iff {rwList roList : PyVal} {level : Option Level} :
    listLevel rt username userGroups vars rwList roList = .ok level ↔
      ∃ top, matchesPrincipal rt username userGroups vars rwList = .ok top ∧
        (top = true ∧ level = grade true false ∨ top = false ∧
          ∃ any, matchesPrincipal rt username userGroups vars roList = .ok any ∧
            level = grade false any) := by
  unfold listLevel
  cases matchesPrincipal rt username userGroups vars rwList with
  | error e => simp [bind, Except.bind]
  | ok top =>
      cases top with
      | true => simp [grade, bind, Except.bind, pure, Except.pure, eq_comm]
      | false =>
          cases matchesPrincipal rt username userGroups vars roList with
          | error e => simp [bind, Except.bind]
          | ok any => cases any <;> simp [grade, bind, Except.bind, pure, Except.pure, eq_comm]

theorem listLevel_mono {rwList roList : PyVal} {level : Option Level}
    (hrwExpand : EntriesExpand rt vars rwList) (hroExpand : EntriesExpand rt vars roList)
    (hgroups : ∀ text, .str text ∈ userGroups → Key.str text ∈ userGroups')
    (h : listLevel rt username userGroups vars rwList roList = .ok level) :
    ∃ level', listLevel rt username userGroups' vars rwList roList = .ok level' ∧
      level ≤ level' := by
  obtain ⟨top, htop, hlevel⟩ := listLevel_eq_ok_iff.mp h
  obtain ⟨top', htop', hmono⟩ := matchesPrincipal_mono hrwExpand hgroups htop
  cases htop'eq : top' with
  | true =>
      subst htop'eq
      refine ⟨_, listLevel_eq_ok_iff.mpr ⟨true, htop', .inl ⟨rfl, rfl⟩⟩, ?_⟩
      rcases hlevel with ⟨-, rfl⟩ | ⟨-, any, -, rfl⟩
      · exact grade_mono id id
      · cases any with
        | false => exact Option.none_le
        | true => exact Option.some_le_some.mpr (by decide)
  | false =>
      subst htop'eq
      rcases hlevel with ⟨rfl, -⟩ | ⟨-, any, hany, rfl⟩
      · cases hmono rfl
      · obtain ⟨any', hany', hmono'⟩ := matchesPrincipal_mono hroExpand hgroups hany
        exact ⟨_, listLevel_eq_ok_iff.mpr ⟨false, htop', .inr ⟨rfl, any', hany', rfl⟩⟩,
          grade_mono id hmono'⟩

end

/-- The roles that one group brings in. -/
def rolesOf (defs group : PyVal) : Py (List Key) :=
  groupDef defs group >>= fun gdef => roleOfDef gdef >>= roleKeys

theorem collectRoles_cons_eq (defs group : PyVal) (rest : List PyVal) :
    collectRoles defs (group :: rest) = rolesOf defs group >>= fun keys =>
      collectRoles defs rest >>= fun others => .ok (keys ++ others) := by
  rw [collectRoles_cons, rolesOf]
  simp only [bind_assoc]

theorem collectRoles_returns_iff {defs : PyVal} {groups : List PyVal} :
    (∃ roles, collectRoles defs groups = .ok roles) ↔
      ∀ group ∈ groups, ∃ keys, rolesOf defs group = .ok keys := by
  induction groups with
  | nil => simp [collectRoles]
  | cons group rest ih =>
      rw [List.forall_mem_cons, ← ih, collectRoles_cons_eq]
      constructor
      · rintro ⟨roles, h⟩
        obtain ⟨keys, hkeys, h⟩ := bind_eq_ok.mp h
        obtain ⟨others, hothers, -⟩ := bind_eq_ok.mp h
        exact ⟨⟨keys, hkeys⟩, others, hothers⟩
      · rintro ⟨⟨keys, hkeys⟩, others, hothers⟩
        exact ⟨_, bind_eq_ok.mpr ⟨keys, hkeys, bind_eq_ok.mpr ⟨others, hothers, rfl⟩⟩⟩

theorem mem_collectRoles {defs : PyVal} {groups : List PyVal} {roles : List Key}
    (h : collectRoles defs groups = .ok roles) (key : Key) :
    key ∈ roles ↔ ∃ group ∈ groups, ∃ keys, rolesOf defs group = .ok keys ∧ key ∈ keys := by
  induction groups generalizing roles with
  | nil =>
      cases h
      simp
  | cons group rest ih =>
      rw [collectRoles_cons_eq] at h
      obtain ⟨keys, hkeys, h⟩ := bind_eq_ok.mp h
      obtain ⟨others, hothers, h⟩ := bind_eq_ok.mp h
      cases h
      rw [List.mem_append, ih hothers, List.exists_mem_cons_iff]
      simp [hkeys]

def roleGrade (roles : List Key) : Option Level :=
  grade (Key.str "read_write" ∈ roles) (!roles.isEmpty)

theorem roleGrade_mono {roles roles' : List Key} (h : ∀ key ∈ roles, key ∈ roles') :
    roleGrade roles ≤ roleGrade roles' := by
  refine grade_mono (fun hmem => decide_eq_true (h _ (of_decide_eq_true hmem))) fun hne => ?_
  cases roles with
  | nil => cases hne
  | cons key rest =>
      have hmem := h key (List.mem_cons_self ..)
      cases roles' with
      | nil => cases hmem
      | cons other rest' => rfl

section

variable {userMap : PyVal} {username : String}

theorem getRole_eq_ok_iff {level : Option Level} :
    getRole userMap username = .ok level ↔ ∃ groups defs roles,
      getGroups userMap username = .ok groups ∧ userMap.get "groups" .emptyDict = .ok defs ∧
      collectRoles defs groups = .ok roles ∧ level = roleGrade roles := by
  have hgrade (defs : PyVal) (groups : List PyVal) : (do
      if groups.isEmpty then return none
      let roles ← collectRoles defs groups
      if roles.isEmpty then return none
      if roles.contains (.str "read_write") then return some .readWrite
      return some .readOnly : Py (Option Level)) = (collectRoles defs groups).map roleGrade := by
    cases groups with
    | nil => rfl
    | cons group rest =>
        cases collectRoles defs (group :: rest) with
        | error e => rfl
        | ok roles =>
            cases roles with
            | nil => rfl
            | cons role rest =>
                by_cases hrole : Key.str "read_write" ∈ role :: rest
                · simp [roleGrade, grade, hrole, bind, Except.bind, pure, Except.pure, Except.map]
                · simp [roleGrade, grade, hrole, bind, Except.bind, pure, Except.pure, Except.map]
  unfold getRole getRoleForGroups
  simp only [hgrade, bind_eq_ok, map_eq_ok]
  constructor
  · rintro ⟨groups, hgroups, defs, hdefs, roles, hroles, rfl⟩
    exact ⟨groups, defs, roles, hgroups, hdefs, hroles, rfl⟩
  · rintro ⟨groups, defs, roles, hgroups, hdefs, hroles, rfl⟩
    exact ⟨groups, hgroups, defs, hdefs, roles, hroles, rfl⟩

theorem knownGroups_some_iff {keys : List Key} :
    knownGroups userMap username = .ok (some keys) ↔ userExists userMap username = .ok true ∧
      ∃ groups, getGroups userMap username = .ok groups ∧ groups.mapM PyVal.toKey = .ok keys := by
  constructor
  · intro h
    obtain ⟨known, hknown, h⟩ := bind_eq_ok.mp h
    cases known with
    | false => cases h
    | true =>
        obtain ⟨groups, hgroups, h⟩ := bind_eq_ok.mp h
        obtain ⟨found, hfound, h⟩ := bind_eq_ok.mp h
        cases h
        exact ⟨hknown, groups, hgroups, hfound⟩
  · rintro ⟨hknown, groups, hgroups, hkeys⟩
    exact bind_eq_ok.mpr ⟨true, hknown, bind_eq_ok.mpr ⟨groups, hgroups,
      bind_eq_ok.mpr ⟨keys, hkeys, rfl⟩⟩⟩

theorem userExists_of_unknown (h : knownGroups userMap username = .ok none) :
    userExists userMap username = .ok false := by
  obtain ⟨known, hknown, h⟩ := bind_eq_ok.mp h
  cases known with
  | false => exact hknown
  | true =>
      obtain ⟨groups, -, h⟩ := bind_eq_ok.mp h
      obtain ⟨keys, -, h⟩ := bind_eq_ok.mp h
      cases h

end

/-- Whoever is in the first map is in the second, in all his groups and perhaps in more,
and his role there is no lower. -/
structure Widens (userMap userMap' : PyVal) (username : String) : Prop where
  known : userExists userMap' username = userExists userMap username
  groups : ∀ groups groups', getGroups userMap username = .ok groups →
    getGroups userMap' username = .ok groups' → ∀ group ∈ groups, group ∈ groups'
  roles : ∀ level level', getRole userMap username = .ok level →
    getRole userMap' username = .ok level' → level ≤ level'

/-- Where the first map answers the resolver, the second one does. -/
structure Answers (userMap userMap' : PyVal) (username : String) : Prop where
  keys : ∀ keys, knownGroups userMap username = .ok (some keys) →
    ∃ keys', knownGroups userMap' username = .ok (some keys')
  roles : ∀ level, getRole userMap username = .ok level →
    ∃ level', getRole userMap' username = .ok level'

/-- The two lists of the one definition have the members of the other's. -/
structure Relisted (consoleDef consoleDef' : PyVal) : Prop where
  rw : ∃ rwList rwList', consoleDef.get "rw" .emptyList = .ok rwList ∧
    consoleDef'.get "rw" .emptyList = .ok rwList' ∧ SameMembers rwList rwList'
  ro : ∃ roList roList', consoleDef.get "ro" .emptyList = .ok roList ∧
    consoleDef'.get "ro" .emptyList = .ok roList' ∧ SameMembers roList roList'

/-- The expansion of a principal fails for no other reason than a variable it lacks. -/
def PrincipalsExpand (rt : Runtime) (consoleDef vars : PyVal) : Prop :=
  ∀ key ∈ ["rw", "ro"], ∀ value, consoleDef.get key .emptyList = .ok value →
    EntriesExpand rt vars value

section

variable {rt : Runtime} {userMap userMap' : PyVal} {username : String}
  {consoleDef consoleDef' vars rwList roList : PyVal} {level level' : Option Level}

theorem resolveAccess_of_get (hrw : consoleDef.get "rw" .emptyList = .ok rwList)
    (hro : consoleDef.get "ro" .emptyList = .ok roList) :
    resolveAccess rt userMap username consoleDef vars = .ok level ↔
      (knownGroups userMap username = .ok none ∧ level = none) ∨
        ∃ keys, knownGroups userMap username = .ok (some keys) ∧
          if rwList.truthy || roList.truthy then
            listLevel rt username keys vars rwList roList = .ok level
          else getRole userMap username = .ok level := by
  cases hknown : knownGroups userMap username with
  | error e => simp [resolveAccess, hknown, bind, Except.bind]
  | ok known =>
      cases known with
      | none =>
          rw [resolveAccess_unknown rt consoleDef vars hknown, Except.ok.injEq]
          constructor
          · exact fun hnone => .inl ⟨rfl, hnone.symm⟩
          · rintro (⟨-, rfl⟩ | ⟨keys, hkeys, -⟩)
            · rfl
            · cases hkeys
      | some keys =>
          cases hlists : rwList.truthy || roList.truthy with
          | true =>
              simp [resolveAccess_of_lists rt userMap username consoleDef vars hknown hrw hro
                hlists]
          | false =>
              simp [resolveAccess_of_no_lists rt userMap username consoleDef vars hknown hrw hro
                hlists]

theorem Widens.keys (h : Widens userMap userMap' username) {keys keys' : List Key}
    (hkeys : knownGroups userMap username = .ok (some keys))
    (hkeys' : knownGroups userMap' username = .ok (some keys')) :
    ∀ text, .str text ∈ keys → Key.str text ∈ keys' := by
  obtain ⟨-, groups, hgroups, hmap⟩ := knownGroups_some_iff.mp hkeys
  obtain ⟨-, groups', hgroups', hmap'⟩ := knownGroups_some_iff.mp hkeys'
  intro text htext
  rw [mem_keys_iff text hmap] at htext
  rw [mem_keys_iff text hmap']
  exact h.groups groups groups' hgroups hgroups' _ htext

theorem Widens.not_unknown (h : Widens userMap userMap' username) {keys : List Key}
    (hkeys : knownGroups userMap username = .ok (some keys)) :
    knownGroups userMap' username ≠ .ok none := by
  intro hnone
  have hknown := (knownGroups_some_iff.mp hkeys).1
  rw [← h.known, userExists_of_unknown hnone] at hknown
  cases hknown

theorem Relisted.listLevel_eq {keys : List Key} {rwList' roList' : PyVal}
    (hrw : SameMembers rwList rwList') (hro : SameMembers roList roList')
    (hrwGet : consoleDef.get "rw" .emptyList = .ok rwList)
    (hroGet : consoleDef.get "ro" .emptyList = .ok roList)
    (hexpand : PrincipalsExpand rt consoleDef vars) :
    listLevel rt username keys vars rwList roList =
      listLevel rt username keys vars rwList' roList' :=
  listLevel_congr hrw hro (hexpand "rw" (by simp) rwList hrwGet)
    (hexpand "ro" (by simp) roList hroGet) fun _ => Iff.rfl

/-- The decision never turns out lower where the user has more groups or a higher role. -/
theorem resolveAccess_le (hlists : Relisted consoleDef consoleDef')
    (hexpand : PrincipalsExpand rt consoleDef vars) (hwidens : Widens userMap userMap' username)
    (h : resolveAccess rt userMap username consoleDef vars = .ok level)
    (h' : resolveAccess rt userMap' username consoleDef' vars = .ok level') : level ≤ level' := by
  obtain ⟨rwList, rwList', hrw, hrw', hrwSame⟩ := hlists.rw
  obtain ⟨roList, roList', hro, hro', hroSame⟩ := hlists.ro
  rcases (resolveAccess_of_get hrw hro).mp h with ⟨-, rfl⟩ | ⟨keys, hkeys, h⟩
  · exact Option.none_le
  · rcases (resolveAccess_of_get hrw' hro').mp h' with ⟨hnone, -⟩ | ⟨keys', hkeys', h'⟩
    · exact absurd hnone (hwidens.not_unknown hkeys)
    · rw [hrwSame.truthy, hroSame.truthy] at h
      split at h
      · rename_i htruthy
        rw [if_pos htruthy] at h'
        obtain ⟨found, hfound, hle⟩ := listLevel_mono (hexpand "rw" (by simp) rwList hrw)
          (hexpand "ro" (by simp) roList hro) (hwidens.keys hkeys hkeys') h
        rw [Relisted.listLevel_eq hrwSame hroSame hrw hro hexpand, h'] at hfound
        cases hfound
        exact hle
      · rename_i htruthy
        rw [if_neg htruthy] at h'
        exact hwidens.roles level level' h h'

theorem resolveAccess_answers (hlists : Relisted consoleDef consoleDef')
    (hexpand : PrincipalsExpand rt consoleDef vars) (hwidens : Widens userMap userMap' username)
    (hanswers : Answers userMap userMap' username)
    (h : resolveAccess rt userMap username consoleDef vars = .ok level) :
    ∃ level', resolveAccess rt userMap' username consoleDef' vars = .ok level' := by
  obtain ⟨rwList, rwList', hrw, hrw', hrwSame⟩ := hlists.rw
  obtain ⟨roList, roList', hro, hro', hroSame⟩ := hlists.ro
  rcases (resolveAccess_of_get hrw hro).mp h with ⟨hnone, rfl⟩ | ⟨keys, hkeys, h⟩
  · refine ⟨none, (resolveAccess_of_get hrw' hro').mpr (.inl ⟨?_, rfl⟩)⟩
    rw [knownGroups, hwidens.known, userExists_of_unknown hnone]
    rfl
  · obtain ⟨keys', hkeys'⟩ := hanswers.keys keys hkeys
    simp only [resolveAccess_of_get hrw' hro']
    rw [hrwSame.truthy, hroSame.truthy] at h
    split at h
    · rename_i htruthy
      obtain ⟨found, hfound, -⟩ := listLevel_mono (hexpand "rw" (by simp) rwList hrw)
        (hexpand "ro" (by simp) roList hro) (hwidens.keys hkeys hkeys') h
      rw [Relisted.listLevel_eq hrwSame hroSame hrw hro hexpand] at hfound
      exact ⟨found, .inr ⟨keys', hkeys', by rwa [if_pos htruthy]⟩⟩
    · rename_i htruthy
      obtain ⟨level', hlevel'⟩ := hanswers.roles level h
      exact ⟨level', .inr ⟨keys', hkeys', by rwa [if_neg htruthy]⟩⟩

end

/-- Only the list of the user's groups is another one. -/
structure Regrouped (userMap userMap' : PyVal) (username : String) (groups groups' : List PyVal) :
    Prop where
  known : userExists userMap' username = userExists userMap username
  before : getGroups userMap username = .ok groups
  after : getGroups userMap' username = .ok groups'
  defs : userMap'.get "groups" .emptyDict = userMap.get "groups" .emptyDict

def Reordered (userMap userMap' : PyVal) (username : String) : Prop :=
  userMap' = userMap ∨ ∃ groups groups', Regrouped userMap userMap' username groups groups' ∧
    ∀ group, group ∈ groups ↔ group ∈ groups'

def GainsGroup (userMap userMap' : PyVal) (username : String) (group : PyVal) : Prop :=
  ∃ groups groups', Regrouped userMap userMap' username groups groups' ∧
    ∀ other, other ∈ groups' ↔ other = group ∨ other ∈ groups

/-- Only the group is defined otherwise, and it brought in no role before. -/
structure GainsRole (userMap userMap' : PyVal) (username : String) (group : PyVal) : Prop where
  known : userExists userMap' username = userExists userMap username
  groups : getGroups userMap' username = getGroups userMap username
  defs : ∃ defs defs', userMap.get "groups" .emptyDict = .ok defs ∧
    userMap'.get "groups" .emptyDict = .ok defs' ∧ rolesOf defs group = .ok [] ∧
    ∀ other, other ≠ group → rolesOf defs' other = rolesOf defs other

/-- The group's role can be read, as that of a name with a plain text for a role can. -/
def GroupReads (userMap group : PyVal) : Prop :=
  ∃ defs keys, userMap.get "groups" .emptyDict = .ok defs ∧ rolesOf defs group = .ok keys

theorem toKey_of_rolesOf {defs group : PyVal} {keys : List Key}
    (h : rolesOf defs group = .ok keys) : ∃ key, group.toKey = .ok key := by
  obtain ⟨gdef, hgdef, -⟩ := bind_eq_ok.mp h
  cases defs with
  | dict entries =>
      obtain ⟨key, hkey, -⟩ := bind_eq_ok.mp hgdef
      exact ⟨key, hkey⟩
  | none | bool | int | float | str | list | pattern | date => cases hgdef

section

variable {userMap userMap' : PyVal} {username : String} {groups groups' : List PyVal}

theorem Regrouped.symm (h : Regrouped userMap userMap' username groups groups') :
    Regrouped userMap' userMap username groups' groups :=
  ⟨h.known.symm, h.after, h.before, h.defs.symm⟩

theorem Regrouped.widens (h : Regrouped userMap userMap' username groups groups')
    (hsubset : ∀ group ∈ groups, group ∈ groups') : Widens userMap userMap' username where
  known := h.known
  groups := by
    intro found found' hfound hfound'
    cases h.before.symm.trans hfound
    cases h.after.symm.trans hfound'
    exact hsubset
  roles := by
    intro level level' hlevel hlevel'
    obtain ⟨found, defs, roles, hfound, hdefs, hroles, rfl⟩ := getRole_eq_ok_iff.mp hlevel
    obtain ⟨found', defs', roles', hfound', hdefs', hroles', rfl⟩ := getRole_eq_ok_iff.mp hlevel'
    cases h.before.symm.trans hfound
    cases h.after.symm.trans hfound'
    cases (h.defs.symm.trans hdefs').symm.trans hdefs
    refine roleGrade_mono fun key hkey => ?_
    obtain ⟨group, hgroup, hrole⟩ := (mem_collectRoles hroles key).mp hkey
    exact (mem_collectRoles hroles' key).mpr ⟨group, hsubset group hgroup, hrole⟩

theorem Regrouped.answers (h : Regrouped userMap userMap' username groups groups')
    (hreads : ∀ group ∈ groups', group ∈ groups ∨ GroupReads userMap' group) :
    Answers userMap userMap' username where
  keys := by
    intro keys hkeys
    obtain ⟨hknown, found, hfound, hmap⟩ := knownGroups_some_iff.mp hkeys
    cases h.before.symm.trans hfound
    have htoKey : ∀ group ∈ groups', ∃ key, group.toKey = .ok key := by
      intro group hgroup
      rcases hreads group hgroup with hold | ⟨defs, keys, -, hroles⟩
      · exact mapM_returns_iff.mp ⟨keys, hmap⟩ group hold
      · exact toKey_of_rolesOf hroles
    obtain ⟨keys', hkeys'⟩ := mapM_returns_iff.mpr htoKey
    exact ⟨keys', knownGroups_some_iff.mpr ⟨h.known.trans hknown, groups', h.after, hkeys'⟩⟩
  roles := by
    intro level hlevel
    obtain ⟨found, defs, roles, hfound, hdefs, hroles, -⟩ := getRole_eq_ok_iff.mp hlevel
    cases h.before.symm.trans hfound
    have hrolesOf : ∀ group ∈ groups', ∃ keys, rolesOf defs group = .ok keys := by
      intro group hgroup
      rcases hreads group hgroup with hold | ⟨defs', keys, hdefs', hnew⟩
      · exact collectRoles_returns_iff.mp ⟨roles, hroles⟩ group hold
      · cases (h.defs.symm.trans hdefs').symm.trans hdefs
        exact ⟨keys, hnew⟩
    obtain ⟨roles', hroles'⟩ := collectRoles_returns_iff.mpr hrolesOf
    exact ⟨_, getRole_eq_ok_iff.mpr
      ⟨groups', defs, roles', h.after, h.defs.trans hdefs, hroles', rfl⟩⟩

theorem GainsRole.widens {group : PyVal} (h : GainsRole userMap userMap' username group) :
    Widens userMap userMap' username where
  known := h.known
  groups := by
    intro found found' hfound hfound'
    cases (h.groups.symm.trans hfound').symm.trans hfound
    exact fun _ hgroup => hgroup
  roles := by
    intro level level' hlevel hlevel'
    obtain ⟨defs, defs', hdefs, hdefs', hnone, hothers⟩ := h.defs
    obtain ⟨found, defsBefore, roles, hfound, hbefore, hroles, rfl⟩ := getRole_eq_ok_iff.mp hlevel
    obtain ⟨found', defsAfter, roles', hfound', hafter, hroles', rfl⟩ :=
      getRole_eq_ok_iff.mp hlevel'
    cases (h.groups.symm.trans hfound').symm.trans hfound
    cases hdefs.symm.trans hbefore
    cases hdefs'.symm.trans hafter
    refine roleGrade_mono fun key hkey => ?_
    obtain ⟨other, hother, keys, hrole, hmem⟩ := (mem_collectRoles hroles key).mp hkey
    have hne : other ≠ group := by
      rintro rfl
      rw [hnone] at hrole
      cases hrole
      cases hmem
    exact (mem_collectRoles hroles' key).mpr
      ⟨other, hother, keys, (hothers other hne).trans hrole, hmem⟩

theorem GainsRole.answers {group : PyVal} (h : GainsRole userMap userMap' username group)
    (hreads : GroupReads userMap' group) : Answers userMap userMap' username where
  keys := by
    intro keys hkeys
    obtain ⟨hknown, found, hfound, hmap⟩ := knownGroups_some_iff.mp hkeys
    exact ⟨keys, knownGroups_some_iff.mpr
      ⟨h.known.trans hknown, found, h.groups.trans hfound, hmap⟩⟩
  roles := by
    intro level hlevel
    obtain ⟨defs, defs', hdefs, hdefs', -, hothers⟩ := h.defs
    obtain ⟨found, defsBefore, roles, hfound, hbefore, hroles, -⟩ := getRole_eq_ok_iff.mp hlevel
    cases hdefs.symm.trans hbefore
    have hrolesOf : ∀ other ∈ found, ∃ keys, rolesOf defs' other = .ok keys := by
      intro other hother
      by_cases hgroup : other = group
      · obtain ⟨defsAfter, keys, hafter, hkeys⟩ := hreads
        cases hdefs'.symm.trans hafter
        exact ⟨keys, hgroup ▸ hkeys⟩
      · rw [hothers other hgroup]
        exact collectRoles_returns_iff.mp ⟨roles, hroles⟩ other hother
    obtain ⟨roles', hroles'⟩ := collectRoles_returns_iff.mpr hrolesOf
    exact ⟨_, getRole_eq_ok_iff.mpr
      ⟨found, defs', roles', h.groups.trans hfound, hdefs', hroles', rfl⟩⟩

theorem Reordered.symm (h : Reordered userMap userMap' username) :
    Reordered userMap' userMap username := by
  rcases h with rfl | ⟨groups, groups', hregrouped, hsame⟩
  · exact .inl rfl
  · exact .inr ⟨groups', groups, hregrouped.symm, fun group => (hsame group).symm⟩

theorem Reordered.widens (h : Reordered userMap userMap' username) :
    Widens userMap userMap' username := by
  rcases h with rfl | ⟨groups, groups', hregrouped, hsame⟩
  · refine ⟨rfl, ?_, ?_⟩
    · intro groups groups' hgroups hgroups'
      cases hgroups.symm.trans hgroups'
      exact fun _ hgroup => hgroup
    · intro level level' hlevel hlevel'
      obtain ⟨groups, defs, roles, hgroups, hdefs, hroles, rfl⟩ := getRole_eq_ok_iff.mp hlevel
      cases hlevel.symm.trans hlevel'
      exact roleGrade_mono fun _ hkey => hkey
  · exact hregrouped.widens fun group => (hsame group).mp

theorem Reordered.answers (h : Reordered userMap userMap' username) :
    Answers userMap userMap' username := by
  rcases h with rfl | ⟨groups, groups', hregrouped, hsame⟩
  · exact ⟨fun keys hkeys => ⟨keys, hkeys⟩, fun level hlevel => ⟨level, hlevel⟩⟩
  · exact hregrouped.answers fun group hgroup => .inl ((hsame group).mpr hgroup)

theorem GainsGroup.widens {group : PyVal} (h : GainsGroup userMap userMap' username group) :
    Widens userMap userMap' username := by
  obtain ⟨groups, groups', hregrouped, hmore⟩ := h
  exact hregrouped.widens fun other hother => (hmore other).mpr (.inr hother)

theorem GainsGroup.answers {group : PyVal} (h : GainsGroup userMap userMap' username group)
    (hreads : GroupReads userMap' group) : Answers userMap userMap' username := by
  obtain ⟨groups, groups', hregrouped, hmore⟩ := h
  refine hregrouped.answers fun other hother => ?_
  rcases (hmore other).mp hother with rfl | hold
  · exact .inr hreads
  · exact .inl hold

end

theorem SameMembers.symm {left right : PyVal} (h : SameMembers left right) :
    SameMembers right left := by
  cases h with
  | refl => exact .refl left
  | lists h => exact .lists fun item => (h item).symm

theorem level_antisymm {level level' : Option Level} (h : level ≤ level') (h' : level' ≤ level) :
    level = level' := by
  cases level with
  | none =>
      cases level' with
      | none => rfl
      | some other => cases h'
  | some level =>
      cases level' with
      | none => cases h
      | some other =>
          rw [Option.some_le_some] at h h'
          cases level with
          | readOnly =>
              cases other with
              | readOnly => rfl
              | readWrite => exact absurd h' (by decide)
          | readWrite =>
              cases other with
              | readOnly => exact absurd h (by decide)
              | readWrite => rfl

section

variable {rt : Runtime} {userMap userMap' : PyVal} {username : String}
  {consoleDef consoleDef' vars : PyVal} {level : Option Level}

theorem Relisted.symm (h : Relisted consoleDef consoleDef') : Relisted consoleDef' consoleDef := by
  obtain ⟨rwList, rwList', hrw, hrw', hrwSame⟩ := h.rw
  obtain ⟨roList, roList', hro, hro', hroSame⟩ := h.ro
  exact ⟨⟨rwList', rwList, hrw', hrw, hrwSame.symm⟩, ⟨roList', roList, hro', hro, hroSame.symm⟩⟩

theorem EntriesExpand.of_same {left right : PyVal} (hsame : SameMembers left right)
    (h : EntriesExpand rt vars left) : EntriesExpand rt vars right := by
  cases hsame with
  | refl => exact h
  | lists hmem =>
      intro items hitems principal hprincipal
      cases hitems
      exact h _ rfl principal ((hmem principal).mpr hprincipal)

theorem Relisted.expand (h : Relisted consoleDef consoleDef')
    (hexpand : PrincipalsExpand rt consoleDef vars) : PrincipalsExpand rt consoleDef' vars := by
  obtain ⟨rwList, rwList', hrw, hrw', hrwSame⟩ := h.rw
  obtain ⟨roList, roList', hro, hro', hroSame⟩ := h.ro
  intro key hkey value hvalue
  rcases List.mem_pair.mp hkey with rfl | rfl
  · cases hrw'.symm.trans hvalue
    exact .of_same hrwSame (hexpand "rw" (by simp) rwList hrw)
  · cases hro'.symm.trans hvalue
    exact .of_same hroSame (hexpand "ro" (by simp) roList hro)

theorem resolveAccess_reordered (hmaps : Reordered userMap userMap' username)
    (hlists : Relisted consoleDef consoleDef') (hexpand : PrincipalsExpand rt consoleDef vars)
    (h : resolveAccess rt userMap username consoleDef vars = .ok level) :
    resolveAccess rt userMap' username consoleDef' vars = .ok level := by
  obtain ⟨level', h'⟩ := resolveAccess_answers hlists hexpand hmaps.widens hmaps.answers h
  have hle := resolveAccess_le hlists hexpand hmaps.widens h h'
  have hge := resolveAccess_le hlists.symm (hlists.expand hexpand) hmaps.symm.widens h' h
  rw [h', level_antisymm hle hge]

theorem relisted_of_known (hknown : userExists userMap username = .ok true)
    (h : resolveAccess rt userMap username consoleDef vars = .ok level) :
    Relisted consoleDef consoleDef := by
  cases resolveAccess_iff.mp h with
  | unknownUser hunknown =>
      rw [userExists_of_unknown hunknown] at hknown
      cases hknown
  | byLists _ hrw hro => exact ⟨⟨_, _, hrw, hrw, .refl _⟩, ⟨_, _, hro, hro, .refl _⟩⟩
  | byRole _ hrw hro => exact ⟨⟨_, _, hrw, hrw, .refl _⟩, ⟨_, _, hro, hro, .refl _⟩⟩

/-- The level does not depend on the order of the two lists or of the user's groups, nor on
how often an entry stands there.  A group the user joins and a role one of his groups is
given never lower it, and it still comes out if the group's role can be read. -/
theorem access_unordered_and_monotone (hknown : userExists userMap username = .ok true)
    (hexpand : PrincipalsExpand rt consoleDef vars) :
    (∀ userMap' consoleDef', Reordered userMap userMap' username →
      Relisted consoleDef consoleDef' → ∀ level,
        resolveAccess rt userMap username consoleDef vars = .ok level ↔
          resolveAccess rt userMap' username consoleDef' vars = .ok level) ∧
    ∀ userMap' group level,
      GainsGroup userMap userMap' username group ∨ GainsRole userMap userMap' username group →
      resolveAccess rt userMap username consoleDef vars = .ok level →
        (∀ level', resolveAccess rt userMap' username consoleDef vars = .ok level' →
          level ≤ level') ∧
        (GroupReads userMap' group →
          ∃ level', resolveAccess rt userMap' username consoleDef vars = .ok level') := by
  constructor
  · intro userMap' consoleDef' hmaps hlists level
    exact ⟨resolveAccess_reordered hmaps hlists hexpand,
      resolveAccess_reordered hmaps.symm hlists.symm (hlists.expand hexpand)⟩
  · intro userMap' group level hgains h
    have hlists := relisted_of_known hknown h
    have hwidens : Widens userMap userMap' username :=
      hgains.elim GainsGroup.widens GainsRole.widens
    refine ⟨fun level' => resolveAccess_le hlists hexpand hwidens h, fun hreads => ?_⟩
    have hanswers : Answers userMap userMap' username :=
      hgains.elim (GainsGroup.answers · hreads) (GainsRole.answers · hreads)
    exact resolveAccess_answers hlists hexpand hwidens hanswers h

end

/-- The file with another list of groups for the user. -/
def regroup (top users entry : List (Key × PyVal)) (username : String) (groups : List PyVal) :
    PyVal :=
  let entry := PyVal.insertKey entry (.str "groups") (.list groups)
  let users := PyVal.insertKey users (.str username) (.dict entry)
  .dict (PyVal.insertKey top (.str "users") (.dict users))

theorem regrouped_regroup {top users entry : List (Key × PyVal)} {username : String}
    {groups : List PyVal} (htop : top.lookup (.str "users") = some (.dict users))
    (husers : users.lookup (.str username) = some (.dict entry))
    (hentry : entry.lookup (.str "groups") = some (.list groups)) (groups' : List PyVal) :
    Regrouped (.dict top) (regroup top users entry username groups') username groups groups' where
  known := by
    simp [userExists, regroup, PyVal.contains, PyVal.lookup_insertKey_self, htop, husers, bind,
      Except.bind]
  before := by
    simp [getGroups, htop, husers, hentry, PyVal.iter, bind, Except.bind]
  after := by
    simp [getGroups, regroup, PyVal.lookup_insertKey_self, PyVal.iter, bind, Except.bind]
  defs := by
    rw [regroup, PyVal.get_dict, PyVal.get_dict, PyVal.lookup_insertKey_of_ne (by decide)]

/-- The file with a role for the group. -/
def giveRole (top defs gdef : List (Key × PyVal)) (group : String) (role : PyVal) : PyVal :=
  let gdef := PyVal.insertKey gdef (.str "role") role
  let defs := PyVal.insertKey defs (.str group) (.dict gdef)
  .dict (PyVal.insertKey top (.str "groups") (.dict defs))

theorem gainsRole_giveRole {top defs : List (Key × PyVal)} {group : String}
    (htop : top.lookup (.str "groups") = some (.dict defs))
    (hnone : rolesOf (.dict defs) (.str group) = .ok []) (gdef : List (Key × PyVal))
    (role : PyVal) (username : String) :
    GainsRole (.dict top) (giveRole top defs gdef group role) username (.str group) where
  known := by
    simp [userExists, giveRole, PyVal.lookup_insertKey_of_ne]
  groups := by
    simp [getGroups, giveRole, PyVal.lookup_insertKey_of_ne]
  defs := by
    refine ⟨.dict defs, _, by rw [PyVal.get_dict, htop]; rfl, PyVal.get_dict .., hnone, ?_⟩
    intro other hother
    rw [PyVal.lookup_insertKey_self, Option.getD_some, rolesOf, rolesOf, groupDef, groupDef]
    cases hkey : other.toKey with
    | error e => rfl
    | ok key =>
        have hne : key ≠ .str group := by
          rintro rfl
          exact hother (toKey_eq_str_iff.mp hkey)
        simp only [bind, Except.bind, PyVal.lookup_insertKey_of_ne hne]

def labFile : List (Key × PyVal) := [
  (.str "users", .ofFields [
    ("alice", .ofFields [("groups", .list [.str "viewers", .str "lab-a"])])]),
  (.str "groups", .ofFields [("viewers", .ofFields [("role", .str "read_only")])])]

/-- The operators of a lab write, and the lab watches. -/
def labConsole : PyVal := .ofFields [("rw", .list [.str "{lab}-operators", .str "bob"]),
  ("ro", .list [.str "{lab}", .str "staff", .str "{lab}"])]

def labConsole' : PyVal := .ofFields [("rw", .list [.str "bob", .str "{lab}-operators"]),
  ("ro", .list [.str "staff", .str "{lab}"])]

def labVars : PyVal := .ofFields [("lab", .str "lab-a")]

theorem relisted_labConsole : Relisted labConsole labConsole' := by
  refine ⟨⟨_, _, rfl, rfl, .lists fun item => ?_⟩, ⟨_, _, rfl, rfl, .lists fun item => ?_⟩⟩ <;>
    simp only [List.mem_cons, List.not_mem_nil, or_false] <;> tauto

theorem expand_labConsole : PrincipalsExpand .plain labConsole labVars := by
  intro key hkey value hvalue items hitems
  rcases List.mem_pair.mp hkey with rfl | rfl <;> cases hvalue <;> cases hitems <;>
    simp only [Expand, List.forall_mem_cons]
  · exact ⟨⟨_, rfl⟩, ⟨_, rfl⟩, fun _ h => absurd h List.not_mem_nil⟩
  · exact ⟨⟨_, rfl⟩, ⟨_, rfl⟩, ⟨_, rfl⟩, fun _ h => absurd h List.not_mem_nil⟩

theorem expand_emptyDict (rt : Runtime) (vars : PyVal) :
    PrincipalsExpand rt .emptyDict vars := by
  intro key hkey value hvalue items hitems
  cases hvalue
  cases hitems
  exact fun _ hprincipal => absurd hprincipal List.not_mem_nil

/-- Alice watches, however the lists and her groups are permuted, and writes as soon as
she is one of the operators.  Where a console has no lists, a role for her lab can only
add to hers. -/
theorem access_unordered_and_monotone_alice : ∃ reordered widened promoted level' level'',
    Reordered (.dict labFile) reordered "alice" ∧
      resolveAccess .plain reordered "alice" labConsole' labVars = .ok (some .readOnly) ∧
      GainsGroup (.dict labFile) widened "alice" (.str "lab-a-operators") ∧
      resolveAccess .plain widened "alice" labConsole labVars = .ok level' ∧
      some .readOnly ≤ level' ∧
      GainsRole (.dict labFile) promoted "alice" (.str "lab-a") ∧
      resolveAccess .plain promoted "alice" .emptyDict .emptyDict = .ok level'' ∧
      some .readOnly ≤ level'' := by
  have hknown : userExists (.dict labFile) "alice" = .ok true := rfl
  have hreordered := @regrouped_regroup labFile _ _ "alice" _ rfl rfl rfl
    [.str "lab-a", .str "viewers", .str "lab-a"]
  have hwidened := @regrouped_regroup labFile _ _ "alice" _ rfl rfl rfl
    [.str "lab-a-operators", .str "viewers", .str "lab-a"]
  have horder : Reordered (.dict labFile) _ "alice" :=
    .inr ⟨_, _, hreordered, fun group => by
      simp only [List.mem_cons, List.not_mem_nil, or_false]
      tauto⟩
  have hgroup : GainsGroup (.dict labFile) _ "alice" (.str "lab-a-operators") :=
    ⟨_, _, hwidened, fun other => by simp⟩
  have hrole : GainsRole (.dict labFile) _ "alice" (.str "lab-a") :=
    @gainsRole_giveRole labFile _ "lab-a" rfl rfl [] (.str "read_write") "alice"
  obtain ⟨hsame, hmore⟩ := access_unordered_and_monotone hknown expand_labConsole
  obtain ⟨hle, hanswers⟩ := hmore _ _ (some .readOnly) (.inl hgroup) rfl
  obtain ⟨level', hlevel'⟩ := hanswers ⟨_, _, rfl, rfl⟩
  obtain ⟨hroleLe, hroleAnswers⟩ := (access_unordered_and_monotone hknown
    (expand_emptyDict .plain .emptyDict)).2 _ _ (some .readOnly) (.inr hrole) rfl
  obtain ⟨level'', hlevel''⟩ := hroleAnswers ⟨_, _, rfl, rfl⟩
  exact ⟨_, _, _, level', level'', horder, (hsame _ _ horder relisted_labConsole _).mp rfl, hgroup,
    hlevel', hle level' hlevel', hrole, hlevel'', hroleLe level'' hlevel''⟩

end Vnctlsd.Membership
