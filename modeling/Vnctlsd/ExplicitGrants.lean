import Vnctlsd.ACLResolver

/-! What the administrator has written, and the access it gives: which entry of a
list or which role of a group a granted level goes back to. -/
namespace Vnctlsd.ExplicitGrants
open Vnctlsd.Python ConsoleConfigStore UserMapStore ACLResolver

section

variable (rt : Runtime) (userMap : PyVal) (username : String) (vars : PyVal)

def InGroup (group : PyVal) : Prop :=
  ∃ groups, getGroups userMap username = .ok groups ∧ group ∈ groups

/-- The entry is `*` as it stands in the configuration, or it expands to the user
or one of his groups. -/
def Names (principal : PyVal) : Prop :=
  principal = .str "*" ∨ ∃ text, resolvePrincipal rt vars principal = .ok text ∧
    (text = username ∨ InGroup userMap username (.str text))

/-- The entry expands to something the resolver accepts. -/
def Hits (principal : PyVal) : Prop :=
  ∃ text, resolvePrincipal rt vars principal = .ok text ∧
    (text = "*" ∨ text = username ∨ InGroup userMap username (.str text))

def Misses (principal : PyVal) : Prop :=
  ∃ text, resolvePrincipal rt vars principal = .ok text ∧
    ¬ (text = "*" ∨ text = username ∨ InGroup userMap username (.str text))

def RoleOf (group role : PyVal) : Prop :=
  ∃ defs gdef, userMap.get "groups" .emptyDict = .ok defs ∧ groupDef defs group = .ok gdef ∧
    gdef.get "role" .none = .ok role

/-- The level goes back to an entry of a list, or, without any entries, to the
role of a group of the user. -/
inductive Explicit (consoleDef : PyVal) : Level → Prop where
  | byReadWrite {items : List PyVal} {principal : PyVal} (level : Level) :
      consoleDef.get "rw" .emptyList = .ok (.list items) → principal ∈ items →
      Names rt userMap username vars principal → Explicit consoleDef level
  | byReadOnly {items : List PyVal} {principal : PyVal} :
      consoleDef.get "ro" .emptyList = .ok (.list items) → principal ∈ items →
      Names rt userMap username vars principal → Explicit consoleDef .readOnly
  | byRole {rwList roList group : PyVal} (level : Level) :
      consoleDef.get "rw" .emptyList = .ok rwList → consoleDef.get "ro" .emptyList = .ok roList →
      rwList.truthy = false → roList.truthy = false → InGroup userMap username group →
      RoleOf userMap group (.str "read_write") → Explicit consoleDef level
  | byReadOnlyRole {rwList roList group : PyVal} :
      consoleDef.get "rw" .emptyList = .ok rwList → consoleDef.get "ro" .emptyList = .ok roList →
      rwList.truthy = false → roList.truthy = false → InGroup userMap username group →
      RoleOf userMap group (.str "read_only") → Explicit consoleDef .readOnly

/-- The value lets the user in although no entry of a list names him: an entry
before which none raises or lets him in expands to `*` without being `*`, or the
value is no list at all. -/
inductive Deceptive : PyVal → Prop where
  | wildcard {before after : List PyVal} {principal : PyVal} :
      (∀ other ∈ before, Misses rt userMap username vars other) →
      resolvePrincipal rt vars principal = .ok "*" →
      (∀ other ∈ before ++ principal :: after, ¬ Names rt userMap username vars other) →
      Deceptive (.list (before ++ principal :: after))
  | noList {value principal : PyVal} {before after : List PyVal} :
      (∀ items, value ≠ .list items) → value.iter = .ok (before ++ principal :: after) →
      (∀ other ∈ before, Misses rt userMap username vars other) →
      Hits rt userMap username vars principal → Deceptive value

def Silent (value : PyVal) : Prop :=
  ∃ entries, value.iter = .ok entries ∧
    ∀ principal ∈ entries, Misses rt userMap username vars principal

/-- Roles are set, and none of them is one of the two there are. -/
def OddRoles : Prop :=
  ∃ defs groups roles, userMap.get "groups" .emptyDict = .ok defs ∧
    getGroups userMap username = .ok groups ∧ collectRoles defs groups = .ok roles ∧ roles ≠ [] ∧
    .str "read_write" ∉ roles ∧ .str "read_only" ∉ roles

end

section

variable {rt : Runtime} {userMap : PyVal} {username : String} {vars : PyVal}
  {userGroups : List Key}

theorem toKey_eq_str_iff {value : PyVal} {text : String} :
    value.toKey = .ok (.str text) ↔ value = .str text := by
  cases value <;> simp [PyVal.toKey, raise]

theorem mem_keys_iff {groups : List PyVal} {keys : List Key} (text : String)
    (h : groups.mapM PyVal.toKey = .ok keys) : .str text ∈ keys ↔ .str text ∈ groups := by
  induction groups generalizing keys with
  | nil =>
      cases h
      simp
  | cons group rest ih =>
      rw [List.mapM_cons] at h
      obtain ⟨key, hkey, h⟩ := bind_eq_ok.mp h
      obtain ⟨others, hothers, h⟩ := bind_eq_ok.mp h
      cases h
      rw [List.mem_cons, List.mem_cons, ih hothers]
      apply or_congr_left
      constructor
      · rintro rfl
        exact (toKey_eq_str_iff.mp hkey).symm
      · rintro rfl
        exact Except.ok.inj hkey

/-- The set of groups the resolver builds has the user's groups in it. -/
theorem knownGroups_contains (hknown : knownGroups userMap username = .ok (some userGroups))
    (text : String) :
    userGroups.contains (.str text) = true ↔ InGroup userMap username (.str text) := by
  obtain ⟨known, -, h⟩ := bind_eq_ok.mp hknown
  cases known with
  | false => cases h
  | true =>
      obtain ⟨groups, hgroups, h⟩ := bind_eq_ok.mp h
      obtain ⟨keys, hkeys, h⟩ := bind_eq_ok.mp h
      cases h
      rw [List.contains_iff_mem, mem_keys_iff text hkeys]
      constructor
      · intro hmem
        exact ⟨groups, hgroups, hmem⟩
      · rintro ⟨others, hothers, hmem⟩
        rw [hgroups] at hothers
        cases hothers
        exact hmem

theorem matchesAny_hit (hknown : knownGroups userMap username = .ok (some userGroups))
    {principal : PyVal} (rest : List PyVal) (h : Hits rt userMap username vars principal) :
    matchesAny rt username userGroups vars (principal :: rest) = .ok true := by
  obtain ⟨text, hresolve, hhit⟩ := h
  rw [← knownGroups_contains hknown] at hhit
  simp only [matchesAny, hresolve, bind, Except.bind]
  by_cases hstar : text = "*"
  · rw [if_pos hstar]
    rfl
  · rw [if_neg hstar]
    by_cases hname : text = username
    · rw [if_pos hname]
      rfl
    · have hgroup := (hhit.resolve_left hstar).resolve_left hname
      rw [if_neg hname, if_pos hgroup]
      rfl

theorem matchesAny_miss (hknown : knownGroups userMap username = .ok (some userGroups))
    {principal : PyVal} (rest : List PyVal) (h : Misses rt userMap username vars principal) :
    matchesAny rt username userGroups vars (principal :: rest) =
      matchesAny rt username userGroups vars rest := by
  obtain ⟨text, hresolve, hmiss⟩ := h
  rw [← knownGroups_contains hknown, not_or, not_or] at hmiss
  obtain ⟨hstar, hname, hgroup⟩ := hmiss
  simp only [matchesAny, hresolve, bind, Except.bind]
  rw [if_neg hstar, if_neg hname, if_neg hgroup]

theorem hits_or_misses {principal : PyVal} {text : String}
    (h : resolvePrincipal rt vars principal = .ok text) :
    Hits rt userMap username vars principal ∨ Misses rt userMap username vars principal := by
  by_cases hhit : text = "*" ∨ text = username ∨ InGroup userMap username (.str text)
  · exact .inl ⟨text, h, hhit⟩
  · exact .inr ⟨text, h, hhit⟩

/-- The loop matches at the first entry that lets the user in, if those before it
expand. -/
theorem matchesAny_true_iff (hknown : knownGroups userMap username = .ok (some userGroups))
    (principals : List PyVal) :
    matchesAny rt username userGroups vars principals = .ok true ↔
      ∃ before principal after, principals = before ++ principal :: after ∧
        (∀ other ∈ before, Misses rt userMap username vars other) ∧
        Hits rt userMap username vars principal := by
  constructor
  · intro h
    induction principals with
    | nil => cases h
    | cons first rest ih =>
        obtain ⟨text, hresolve, -⟩ := bind_eq_ok.mp h
        rcases hits_or_misses hresolve with hhit | hmiss
        · exact ⟨[], first, rest, rfl, fun _ hmem => absurd hmem List.not_mem_nil, hhit⟩
        · rw [matchesAny_miss hknown rest hmiss] at h
          obtain ⟨before, principal, after, rfl, hbefore, hhit⟩ := ih h
          exact ⟨first :: before, principal, after, rfl,
            List.forall_mem_cons.mpr ⟨hmiss, hbefore⟩, hhit⟩
  · rintro ⟨before, principal, after, rfl, hbefore, hhit⟩
    induction before with
    | nil => exact matchesAny_hit hknown after hhit
    | cons first rest ih =>
        obtain ⟨hmiss, hrest⟩ := List.forall_mem_cons.mp hbefore
        rw [List.cons_append, matchesAny_miss hknown _ hmiss]
        exact ih hrest

theorem matchesAny_false_iff (hknown : knownGroups userMap username = .ok (some userGroups))
    (principals : List PyVal) :
    matchesAny rt username userGroups vars principals = .ok false ↔
      ∀ principal ∈ principals, Misses rt userMap username vars principal := by
  induction principals with
  | nil => exact ⟨fun _ _ hmem => absurd hmem List.not_mem_nil, fun _ => rfl⟩
  | cons first rest ih =>
      rw [List.forall_mem_cons, ← ih]
      constructor
      · intro h
        obtain ⟨text, hresolve, -⟩ := bind_eq_ok.mp h
        rcases hits_or_misses hresolve with hhit | hmiss
        · rw [matchesAny_hit hknown rest hhit] at h
          cases h
        · rw [matchesAny_miss hknown rest hmiss] at h
          exact ⟨hmiss, h⟩
      · rintro ⟨hmiss, h⟩
        rwa [matchesAny_miss hknown rest hmiss]

theorem matchesPrincipal_false_iff (hknown : knownGroups userMap username = .ok (some userGroups))
    (value : PyVal) :
    matchesPrincipal rt username userGroups vars value = .ok false ↔
      Silent rt userMap username vars value := by
  unfold matchesPrincipal Silent
  rw [bind_eq_ok]
  simp only [matchesAny_false_iff hknown]

theorem listLevel_eq_some_iff {rwList roList : PyVal} {level : Level}
    (hknown : knownGroups userMap username = .ok (some userGroups)) :
    listLevel rt username userGroups vars rwList roList = .ok (some level) ↔
      (level = .readWrite ∧
        matchesPrincipal rt username userGroups vars rwList = .ok true) ∨
      (level = .readOnly ∧ Silent rt userMap username vars rwList ∧
        matchesPrincipal rt username userGroups vars roList = .ok true) := by
  rw [← matchesPrincipal_false_iff hknown]
  unfold listLevel
  cases matchesPrincipal rt username userGroups vars rwList with
  | error e => simp [bind, Except.bind]
  | ok matched =>
      cases matched with
      | true => simp [bind, Except.bind, pure, Except.pure, eq_comm]
      | false =>
          cases matchesPrincipal rt username userGroups vars roList with
          | error e => simp [bind, Except.bind]
          | ok matched => cases matched <;> simp [bind, Except.bind, pure, Except.pure, eq_comm]

theorem expand_star {text : String} (h : resolvePrincipal rt vars (.str "*") = .ok text) :
    text = "*" := by
  rcases onKeyError_eq_ok.mp h with hformat | ⟨e, -, -, hraw⟩
  · obtain ⟨fields, -, hformat⟩ := bind_eq_ok.mp hformat
    have hplain : ∀ c ∈ "*".toList, Format.isBrace c = false := List.forall_mem_singleton.mpr rfl
    rw [Format.format_literal rt "*" fields hplain] at hformat
    exact (Except.ok.inj hformat).symm
  · exact hraw.symm

theorem not_names_of_misses {principal : PyVal}
    (h : Misses rt userMap username vars principal) :
    ¬ Names rt userMap username vars principal := by
  obtain ⟨text, hresolve, hmiss⟩ := h
  rintro (rfl | ⟨other, hother, hnames⟩)
  · exact hmiss (.inl (expand_star hresolve))
  · rw [hresolve] at hother
    cases hother
    exact hmiss (.inr hnames)

theorem hits_star {principal : PyVal} (h : resolvePrincipal rt vars principal = .ok "*") :
    Hits rt userMap username vars principal :=
  ⟨"*", h, .inl rfl⟩

/-- The value is a list with an entry that names the user. -/
def ListNames (rt : Runtime) (userMap : PyVal) (username : String) (vars value : PyVal) : Prop :=
  ∃ items, value = .list items ∧ ∃ principal ∈ items, Names rt userMap username vars principal

theorem deceptive_iff (hknown : knownGroups userMap username = .ok (some userGroups))
    (value : PyVal) :
    Deceptive rt userMap username vars value ↔
      matchesPrincipal rt username userGroups vars value = .ok true ∧
        ¬ ListNames rt userMap username vars value := by
  constructor
  · intro h
    cases h with
    | @wildcard before after principal hbefore hstar hnames =>
        constructor
        · refine bind_eq_ok.mpr ⟨_, rfl, ?_⟩
          exact (matchesAny_true_iff hknown _).mpr
            ⟨before, principal, after, rfl, hbefore, hits_star hstar⟩
        · rintro ⟨items, hitems, named, hmem, hnamed⟩
          cases hitems
          exact hnames named hmem hnamed
    | @noList value principal before after hlist hiter hbefore hhit =>
        constructor
        · refine bind_eq_ok.mpr ⟨_, hiter, ?_⟩
          exact (matchesAny_true_iff hknown _).mpr ⟨before, principal, after, rfl, hbefore, hhit⟩
        · rintro ⟨items, hitems, -⟩
          exact hlist items hitems
  · rintro ⟨hmatch, hnames⟩
    obtain ⟨entries, hiter, hany⟩ := bind_eq_ok.mp hmatch
    obtain ⟨before, principal, after, rfl, hbefore, hhit⟩ := (matchesAny_true_iff hknown _).mp hany
    by_cases hlist : ∃ items, value = .list items
    · obtain ⟨items, rfl⟩ := hlist
      cases hiter
      have hunnamed : ∀ other ∈ before ++ principal :: after,
          ¬ Names rt userMap username vars other :=
        fun other hmem hnamed => hnames ⟨_, rfl, other, hmem, hnamed⟩
      obtain ⟨text, hresolve, htext⟩ := hhit
      rcases htext with rfl | htext
      · exact .wildcard hbefore hresolve hunnamed
      · have hmem : principal ∈ before ++ principal :: after :=
          List.mem_append_right _ (List.mem_cons_self ..)
        exact absurd (.inr ⟨text, hresolve, htext⟩) (hunnamed principal hmem)
    · exact .noList (fun items hitems => hlist ⟨items, hitems⟩) hiter hbefore hhit

theorem not_listNames_of_silent {value : PyVal} (h : Silent rt userMap username vars value) :
    ¬ ListNames rt userMap username vars value := by
  rintro ⟨items, rfl, principal, hmem, hnames⟩
  obtain ⟨entries, hiter, hmisses⟩ := h
  cases hiter
  exact not_names_of_misses (hmisses principal hmem) hnames

theorem truthy_of_listNames {value : PyVal} (h : ListNames rt userMap username vars value) :
    value.truthy = true := by
  obtain ⟨items, rfl, principal, hmem, -⟩ := h
  cases items with
  | nil => cases hmem
  | cons item rest => rfl

/-- With entries in a list a level is explicit by the entries alone. -/
theorem explicit_of_lists_iff {consoleDef rwList roList : PyVal}
    (hrw : consoleDef.get "rw" .emptyList = .ok rwList)
    (hro : consoleDef.get "ro" .emptyList = .ok roList)
    (hlists : (rwList.truthy || roList.truthy) = true) (level : Level) :
    Explicit rt userMap username vars consoleDef level ↔
      ListNames rt userMap username vars rwList ∨
        (level = .readOnly ∧ ListNames rt userMap username vars roList) := by
  constructor
  · intro h
    cases h with
    | @byReadWrite items principal _ hitems hmem hnames =>
        rw [hrw] at hitems
        cases hitems
        exact .inl ⟨items, rfl, principal, hmem, hnames⟩
    | @byReadOnly items principal hitems hmem hnames =>
        rw [hro] at hitems
        cases hitems
        exact .inr ⟨rfl, items, rfl, principal, hmem, hnames⟩
    | byRole _ hrw' hro' hrwEmpty hroEmpty =>
        rw [hrw] at hrw'
        rw [hro] at hro'
        cases hrw'
        cases hro'
        rw [hrwEmpty, hroEmpty] at hlists
        cases hlists
    | byReadOnlyRole hrw' hro' hrwEmpty hroEmpty =>
        rw [hrw] at hrw'
        rw [hro] at hro'
        cases hrw'
        cases hro'
        rw [hrwEmpty, hroEmpty] at hlists
        cases hlists
  · rintro (⟨items, rfl, principal, hmem, hnames⟩ | ⟨rfl, items, rfl, principal, hmem, hnames⟩)
    · exact .byReadWrite level hrw hmem hnames
    · exact .byReadOnly hro hmem hnames

/-- The lists never grant what is not explicit exactly when neither deceives, the
second one as far as it is asked. -/
theorem explicit_lists_iff {rwList roList : PyVal}
    (hknown : knownGroups userMap username = .ok (some userGroups)) :
    (∀ level, listLevel rt username userGroups vars rwList roList = .ok (some level) →
      ListNames rt userMap username vars rwList ∨
        (level = .readOnly ∧ ListNames rt userMap username vars roList)) ↔
      ¬ Deceptive rt userMap username vars rwList ∧
        (Silent rt userMap username vars rwList →
          ¬ Deceptive rt userMap username vars roList) := by
  constructor
  · intro h
    constructor
    · intro hdeceptive
      obtain ⟨hmatch, hnames⟩ := (deceptive_iff hknown rwList).mp hdeceptive
      rcases h .readWrite ((listLevel_eq_some_iff hknown).mpr (.inl ⟨rfl, hmatch⟩)) with
        hrw | ⟨hlevel, -⟩
      · exact hnames hrw
      · cases hlevel
    · intro hsilent hdeceptive
      obtain ⟨hmatch, hnames⟩ := (deceptive_iff hknown roList).mp hdeceptive
      rcases h .readOnly ((listLevel_eq_some_iff hknown).mpr (.inr ⟨rfl, hsilent, hmatch⟩)) with
        hrw | ⟨-, hro⟩
      · exact not_listNames_of_silent hsilent hrw
      · exact hnames hro
  · rintro ⟨hrw, hro⟩ level hlevel
    rcases (listLevel_eq_some_iff hknown).mp hlevel with ⟨-, hmatch⟩ | ⟨rfl, hsilent, hmatch⟩
    · left
      by_contra hnames
      exact hrw ((deceptive_iff hknown rwList).mpr ⟨hmatch, hnames⟩)
    · right
      refine ⟨rfl, ?_⟩
      by_contra hnames
      exact hro hsilent ((deceptive_iff hknown roList).mpr ⟨hmatch, hnames⟩)

theorem roleOfDef_eq_str_iff {gdef : PyVal} {text : String} :
    roleOfDef gdef = .ok (.str text) ↔ gdef.get "role" .none = .ok (.str text) := by
  cases gdef with
  | dict entries => exact Iff.rfl
  | none | bool | int | float | str | list | pattern | date =>
      simp [roleOfDef, PyVal.get, PyVal.noAttribute, raise]

theorem mem_roleKeys_iff {role : PyVal} {keys : List Key} {text : String} (htext : text ≠ "")
    (h : roleKeys role = .ok keys) : .str text ∈ keys ↔ role = .str text := by
  unfold roleKeys at h
  split at h
  · obtain ⟨key, hkey, rfl⟩ := map_eq_ok.mp h
    rw [List.mem_singleton, ← toKey_eq_str_iff, hkey, Except.ok.injEq, eq_comm]
  · rename_i hfalsy
    cases h
    constructor
    · intro hmem
      cases hmem
    · rintro rfl
      exact absurd (bne_iff_ne.mpr htext) hfalsy

/-- The roles the fold collects are those of the groups. -/
theorem mem_collectRoles_iff {defs : PyVal} {groups : List PyVal} {roles : List Key}
    {text : String} (htext : text ≠ "") (h : collectRoles defs groups = .ok roles) :
    .str text ∈ roles ↔ ∃ group ∈ groups, ∃ gdef, groupDef defs group = .ok gdef ∧
      gdef.get "role" .none = .ok (.str text) := by
  induction groups generalizing roles with
  | nil =>
      cases h
      simp
  | cons group rest ih =>
      rw [collectRoles_cons] at h
      obtain ⟨gdef, hgdef, h⟩ := bind_eq_ok.mp h
      obtain ⟨role, hrole, h⟩ := bind_eq_ok.mp h
      obtain ⟨keys, hkeys, h⟩ := bind_eq_ok.mp h
      obtain ⟨others, hothers, h⟩ := bind_eq_ok.mp h
      cases h
      rw [List.mem_append, mem_roleKeys_iff htext hkeys, ih hothers, List.exists_mem_cons_iff]
      apply or_congr_left
      constructor
      · rintro rfl
        exact ⟨gdef, hgdef, roleOfDef_eq_str_iff.mp hrole⟩
      · rintro ⟨other, hother, hget⟩
        rw [hgdef] at hother
        cases hother
        rw [← roleOfDef_eq_str_iff, hrole] at hget
        exact Except.ok.inj hget

theorem inGroup_role_iff {defs : PyVal} {groups : List PyVal} {roles : List Key} {text : String}
    (htext : text ≠ "") (hdefs : userMap.get "groups" .emptyDict = .ok defs)
    (hgroups : getGroups userMap username = .ok groups)
    (hroles : collectRoles defs groups = .ok roles) :
    (∃ group, InGroup userMap username group ∧ RoleOf userMap group (.str text)) ↔
      .str text ∈ roles := by
  rw [mem_collectRoles_iff htext hroles]
  constructor
  · rintro ⟨group, ⟨others, hothers, hmem⟩, otherDefs, gdef, hotherDefs, hgdef, hrole⟩
    rw [hgroups] at hothers
    rw [hdefs] at hotherDefs
    cases hothers
    cases hotherDefs
    exact ⟨group, hmem, gdef, hgdef, hrole⟩
  · rintro ⟨group, hmem, gdef, hgdef, hrole⟩
    exact ⟨group, ⟨groups, hgroups, hmem⟩, defs, gdef, hdefs, hgdef, hrole⟩

/-- Without entries a level is explicit by the roles alone. -/
theorem explicit_of_role_iff {consoleDef rwList roList : PyVal}
    (hrw : consoleDef.get "rw" .emptyList = .ok rwList)
    (hro : consoleDef.get "ro" .emptyList = .ok roList)
    (hlists : (rwList.truthy || roList.truthy) = false) (level : Level) :
    Explicit rt userMap username vars consoleDef level ↔
      (∃ group, InGroup userMap username group ∧ RoleOf userMap group (.str "read_write")) ∨
        (level = .readOnly ∧
          ∃ group, InGroup userMap username group ∧ RoleOf userMap group (.str "read_only")) := by
  obtain ⟨hrwEmpty, hroEmpty⟩ := Bool.or_eq_false_iff.mp hlists
  constructor
  · intro h
    cases h with
    | @byReadWrite items principal _ hitems hmem hnames =>
        rw [hrw] at hitems
        cases hitems
        have htruthy := truthy_of_listNames ⟨items, rfl, principal, hmem, hnames⟩
        rw [hrwEmpty] at htruthy
        cases htruthy
    | @byReadOnly items principal hitems hmem hnames =>
        rw [hro] at hitems
        cases hitems
        have htruthy := truthy_of_listNames ⟨items, rfl, principal, hmem, hnames⟩
        rw [hroEmpty] at htruthy
        cases htruthy
    | byRole _ _ _ _ _ hgroup hrole => exact .inl ⟨_, hgroup, hrole⟩
    | byReadOnlyRole _ _ _ _ hgroup hrole => exact .inr ⟨rfl, _, hgroup, hrole⟩
  · rintro (⟨group, hgroup, hrole⟩ | ⟨rfl, group, hgroup, hrole⟩)
    · exact .byRole level hrw hro hrwEmpty hroEmpty hgroup hrole
    · exact .byReadOnlyRole hrw hro hrwEmpty hroEmpty hgroup hrole

/-- The roles never grant what is not explicit exactly when they are the two there
are, or none. -/
theorem explicit_roles_iff :
    (∀ level, getRole userMap username = .ok (some level) →
      (∃ group, InGroup userMap username group ∧ RoleOf userMap group (.str "read_write")) ∨
        (level = .readOnly ∧
          ∃ group, InGroup userMap username group ∧ RoleOf userMap group (.str "read_only"))) ↔
      ¬ OddRoles userMap username := by
  constructor
  · rintro h ⟨defs, groups, roles, hdefs, hgroups, hroles, hne, hrw, hro⟩
    have hlevel : getRole userMap username = .ok (some .readOnly) := by
      apply getRole_eq_some_iff.mpr
      refine ⟨defs, groups, roles, hdefs, hgroups, hroles, hne, ?_⟩
      rw [if_neg (mt List.contains_iff_mem.mp hrw)]
    rcases h .readOnly hlevel with hgroup | ⟨-, hgroup⟩
    · exact hrw ((inGroup_role_iff (by decide) hdefs hgroups hroles).mp hgroup)
    · exact hro ((inGroup_role_iff (by decide) hdefs hgroups hroles).mp hgroup)
  · intro h level hlevel
    obtain ⟨defs, groups, roles, hdefs, hgroups, hroles, hne, hvalue⟩ :=
      getRole_eq_some_iff.mp hlevel
    by_cases hrw : .str "read_write" ∈ roles
    · exact .inl ((inGroup_role_iff (by decide) hdefs hgroups hroles).mpr hrw)
    · rw [if_neg (mt List.contains_iff_mem.mp hrw)] at hvalue
      right
      refine ⟨hvalue, (inGroup_role_iff (by decide) hdefs hgroups hroles).mpr ?_⟩
      by_contra hro
      exact h ⟨defs, groups, roles, hdefs, hgroups, hroles, hne, hrw, hro⟩

end

/-- Neither list deceives, the second one as far as it is asked; without entries,
the roles are the two there are. -/
def Honest (rt : Runtime) (userMap : PyVal) (username : String) (consoleDef vars : PyVal) : Prop :=
  ∀ userGroups rwList roList, knownGroups userMap username = .ok (some userGroups) →
    consoleDef.get "rw" .emptyList = .ok rwList → consoleDef.get "ro" .emptyList = .ok roList →
    if rwList.truthy || roList.truthy then
      ¬ Deceptive rt userMap username vars rwList ∧
        (Silent rt userMap username vars rwList → ¬ Deceptive rt userMap username vars roList)
    else ¬ OddRoles userMap username

/-- Every level that is granted is explicit exactly when the definition and the
roles are honest for the user. -/
theorem explicit_iff_honest (rt : Runtime) (userMap : PyVal) (username : String)
    (consoleDef vars : PyVal) :
    (∀ level, resolveAccess rt userMap username consoleDef vars = .ok (some level) →
        Explicit rt userMap username vars consoleDef level) ↔
      Honest rt userMap username consoleDef vars := by
  constructor
  · intro h userGroups rwList roList hknown hrw hro
    cases hlists : rwList.truthy || roList.truthy with
    | true =>
        rw [if_pos rfl, ← explicit_lists_iff hknown]
        intro level hlevel
        rw [← explicit_of_lists_iff hrw hro hlists]
        exact h level (resolveAccess_iff.mpr (.byLists hknown hrw hro hlists hlevel))
    | false =>
        rw [if_neg Bool.false_ne_true, ← explicit_roles_iff]
        intro level hlevel
        rw [← explicit_of_role_iff hrw hro hlists]
        exact h level (resolveAccess_iff.mpr (.byRole hknown hrw hro hlists hlevel))
  · intro h level hlevel
    cases resolveAccess_iff.mp hlevel with
    | @byLists userGroups rwList roList _ hknown hrw hro hlists hlevel =>
        have hhonest := h userGroups rwList roList hknown hrw hro
        rw [if_pos hlists, ← explicit_lists_iff hknown] at hhonest
        exact (explicit_of_lists_iff hrw hro hlists level).mpr (hhonest level hlevel)
    | @byRole userGroups rwList roList _ hknown hrw hro hlists hrole =>
        have hhonest := h userGroups rwList roList hknown hrw hro
        rw [hlists, if_neg Bool.false_ne_true, ← explicit_roles_iff] at hhonest
        exact (explicit_of_role_iff hrw hro hlists level).mpr (hhonest level hrole)

def ownedLabs : PyVal := .ofFields [("console_patterns", .list [.ofFields [
  ("console_name", .str "lab-{owner}"), ("rw", .list [.str "{owner}"])]])]

def students : PyVal := .ofFields [
  ("users", .ofFields [("mallory", .ofFields [("groups", .list [.str "lab-a"])])]),
  ("groups", .ofFields [("lab-a", .ofFields [("role", .str "read_only")])])]

def captured : PyVal := .ofFields [("owner", .str "*")]

/-- `console lab-*` captures the wildcard and opens the console read-write. -/
theorem ownedLabs_wildcard :
    ∃ cfg defn, update .plain ownedLabs = .ok cfg ∧
      matchConsoleName cfg "lab-*" = .ok (some (defn, captured)) ∧
      resolveAccess .plain students "mallory" defn captured = .ok (some .readWrite) ∧
      ¬ Explicit .plain students "mallory" captured defn .readWrite := by
  refine ⟨_, _, rfl, rfl, by decide, ?_⟩
  rw [explicit_of_lists_iff rfl rfl rfl]
  have hstar : resolvePrincipal .plain captured (.str "{owner}") = .ok "*" := by decide
  rintro (⟨items, hitems, principal, hmem, hnames⟩ | ⟨hlevel, -⟩)
  · cases hitems
    obtain rfl := List.mem_singleton.mp hmem
    rcases hnames with hliteral | ⟨text, htext, hnamed⟩
    · exact absurd (PyVal.str.inj hliteral) (by decide)
    · obtain rfl : "*" = text := Except.ok.inj (hstar.symm.trans htext)
      rcases hnamed with hname | ⟨groups, hgroups, hgroup⟩
      · exact absurd hname (by decide)
      · cases hgroups
        exact absurd (PyVal.str.inj (List.mem_singleton.mp hgroup)) (by decide)
  · cases hlevel

end Vnctlsd.ExplicitGrants
