import Vnctlsd.Helper.StartUp

/-! What every execution of the helper has behind it when it calls `connect()`, and
when it begins to relay, whatever the outcomes of the calls before. -/
namespace Vnctlsd.Helper
open Vnctlsd.Library.FailStop Vnctlsd.Python

/-- The ids are those of the account that was named, which is not root, and the
helper was started by the account of the bridge. -/
structure Identity (sys : System) (argv : List CStr) (start ids : Ids) (target bridge : Passwd) :
    Prop where
  named : ∃ program username, argv = [program, Text.ascii "--user", username] ∧
    validUsername username = true ∧ sys.lookup username = some target
  notRoot : target.uid ≠ 0
  uids : ids.ruid = target.uid ∧ ids.euid = target.uid ∧ ids.suid = target.uid
  gids : ids.rgid = target.gid ∧ ids.egid = target.gid ∧ ids.sgid = target.gid
  groups : ∀ gid ∈ ids.groups, gid ∈ sys.groupsOf target.name target.gid
  caller : sys.lookup bridgeUser = some bridge ∧ start.ruid = bridge.uid

def Identified (sys : System) (argv : List CStr) (start ids : Ids) : Prop :=
  ∃ target bridge, Identity sys argv start ids target bridge

/-- No new privileges, no file system access, and the allowed calls only. -/
structure LockedDown (machine : Machine) : Prop where
  privileges : machine.noNewPrivs = true
  files : ∃ ruleset ∈ machine.landlock, ruleset.rules = [] ∧
    ruleset.handled &&& landlockFsV1 = landlockFsV1
  calls : machine.seccomp = some allowed

variable {pre : Machine → Prop}

theorem contract_dieMsg (msg : String) {post : α → Machine → Prop} :
    Contract pre (dieMsg msg : Main α) post := contract_stop _

theorem contract_orDie (ctx : String) (outcome : Option Errno) :
    Contract pre (orDie ctx outcome) fun _ => pre := by
  cases outcome with
  | none => exact contract_pure fun _ h => h
  | some errno => exact contract_stop _

theorem contract_orDieWith (ctx : String) (outcome : Except Errno α) :
    Contract pre (orDieWith ctx outcome) fun value m => pre m ∧ outcome = .ok value := by
  cases outcome with
  | ok value => exact contract_pure fun _ h => ⟨h, rfl⟩
  | error errno => exact contract_stop _

theorem contract_changeIds {ctx : String} {call : Ids → Except Errno Ids}
    (before after : Ids → Prop)
    (h : ∀ ids ids', before ids → call ids = .ok ids' → after ids') :
    Contract (fun m => before m.ids) (changeIds ctx call) fun _ m => after m.ids := by
  have hget : Contract (fun m => before m.ids) (get : Main Machine)
      fun machine m => before machine.ids ∧ m = machine := contract_get fun _ hm => ⟨hm, rfl⟩
  refine hget.bind fun machine => (contract_orDieWith ctx (call machine.ids)).bind fun ids => ?_
  intro start result finish hstart hrun
  cases hrun
  obtain ⟨⟨hbefore, -⟩, hcall⟩ := hstart
  exact h _ _ hbefore hcall

/-- A lookup leaves the ids alone, and a pointer it returns leads to the entry. -/
theorem contract_getpwnam (sys : System) (found : Bool) (name : CStr) (known : Ids → Prop) :
    Contract (fun m => known m.ids) (getpwnam sys found name) fun ptr m => known m.ids ∧
      (ptr.isSome = true → sys.lookup name = some m.pwbuf) := by
  unfold getpwnam
  cases found with
  | false => exact contract_pure fun m hm => ⟨hm, fun h => by cases h⟩
  | true =>
      simp only [if_true]
      cases hlookup : sys.lookup name with
      | none => exact contract_pure fun m hm => ⟨hm, fun h => by cases h⟩
      | some entry =>
          have hmodify : Contract (fun m => known m.ids)
              (modify fun machine => { machine with pwbuf := entry } : Main PUnit)
              fun _ m => known m.ids ∧ m.pwbuf = entry :=
            contract_modify fun _ hm => ⟨hm, rfl⟩
          exact hmodify.bind fun _ => contract_pure fun m hm => ⟨hm.1, fun _ => by rw [hm.2]⟩

theorem contract_deref (ptr : PasswdPtr) :
    Contract pre (deref ptr) fun entry m => pre m ∧ m.pwbuf = entry := by
  have hget : Contract pre (get : Main Machine) fun machine m => pre m ∧ m = machine :=
    contract_get fun _ hm => ⟨hm, rfl⟩
  exact hget.bind fun machine => contract_pure fun m hm => ⟨hm.1, by rw [hm.2]⟩

theorem contract_verifyCaller (sys : System) (o : Outcomes) (start : Ids) :
    Contract (fun m => m.ids = start) (verifyCaller sys o) fun _ m => m.ids = start ∧
      sys.lookup bridgeUser = some m.pwbuf ∧ start.ruid = m.pwbuf.uid := by
  refine (contract_getpwnam sys o.bridgeFound bridgeUser (· = start)).bind fun ptr => ?_
  cases ptr with
  | none => exact contract_dieMsg _
  | some ptr =>
      have hget : Contract (fun m => m.ids = start ∧ ((some ptr).isSome = true →
            sys.lookup bridgeUser = some m.pwbuf)) (get : Main Machine)
          fun machine m => m.ids = start ∧ sys.lookup bridgeUser = some m.pwbuf ∧ m = machine :=
        contract_get fun m hm => ⟨hm.1, hm.2 rfl, rfl⟩
      refine hget.bind fun machine => (contract_deref ptr).bind fun bridge => ?_
      refine contract_ite (fun _ => contract_dieMsg _) fun hsame => contract_pure ?_
      rintro m ⟨⟨hids, hlookup, hm⟩, hbridge⟩
      rw [not_not, ← hbridge, ← hm, hids] at hsame
      exact ⟨hids, hlookup, hsame⟩

theorem contract_parseArgs (argv : List CStr) :
    Contract pre (parseArgs argv) fun username m => pre m ∧
      (∃ program, argv = [program, Text.ascii "--user", username]) ∧
      validUsername username = true := by
  unfold parseArgs
  split
  · rename_i program flag username
    refine contract_ite (fun _ => contract_dieMsg _) fun hflag => ?_
    refine contract_ite (fun hvalid => contract_pure fun m hm => ?_) fun _ => contract_dieMsg _
    rw [not_not] at hflag
    exact ⟨hm, ⟨program, by rw [hflag]⟩, hvalid⟩
  · exact contract_dieMsg _

theorem name_take_of_lookup {sys : System} {username : CStr} {target : Passwd}
    (hvalid : validUsername username = true) (hlookup : sys.lookup username = some target) :
    target.name.take 255 = target.name := by
  apply List.take_of_length_le
  rw [sys.name_of_lookup hlookup]
  exact Nat.le_trans (length_le_of_validUsername hvalid) (by decide)

theorem contract_resolveTarget (sys : System) (o : Outcomes) {username : CStr}
    (hvalid : validUsername username = true) (known : Ids → Prop) :
    Contract (fun m => known m.ids) (resolveTarget sys o username) fun target m => known m.ids ∧
      m.pwbuf = target ∧ sys.lookup username = some target ∧ target.uid ≠ 0 := by
  refine (contract_getpwnam sys o.targetFound username known).bind fun ptr => ?_
  cases ptr with
  | none => exact contract_dieMsg _
  | some ptr =>
      refine (contract_deref ptr).bind fun target => ?_
      refine contract_ite (fun _ => contract_dieMsg _) fun hroot => contract_pure ?_
      rintro m ⟨⟨hids, hlookup⟩, rfl⟩
      have hfound := hlookup rfl
      rw [name_take_of_lookup hvalid hfound]
      exact ⟨hids, rfl, hfound, hroot⟩

theorem contract_checkDaemonSocket (files : Files) (path : CStr) (daemonUid : Nat) :
    Contract pre (checkDaemonSocket files path daemonUid) fun _ => pre := by
  refine (contract_orDieWith _ _).bind fun dir => ?_
  refine contract_ite (fun _ => contract_dieMsg _) fun _ => ?_
  refine contract_ite (fun _ => contract_dieMsg _) fun _ => ?_
  refine (contract_orDieWith _ _).bind fun st => ?_
  refine contract_ite (fun _ => contract_dieMsg _) fun _ => ?_
  refine contract_ite (fun _ => contract_dieMsg _) fun _ => ?_
  refine contract_ite (fun _ => contract_dieMsg _) fun _ => contract_pure fun m hm => hm.1.1

theorem contract_checkSocket (sys : System) (ptr : PasswdPtr) :
    Contract pre (checkSocket sys ptr) fun _ => pre :=
  (contract_deref ptr).bind fun bridge =>
    (contract_checkDaemonSocket sys.files daemonSocket bridge.uid).imp (fun _ h => h)
      fun _ _ h => h.1

theorem groupList_subset (sys : System) (o : Outcomes) (target : Passwd) :
    ∀ gid ∈ groupList sys o target, gid ∈ sys.groupsOf target.name target.gid := by
  intro gid hgid
  unfold groupList at hgid
  generalize (if o.ngroupsMax ≤ 0 then 65536 else o.ngroupsMax.toNat) = room at hgid
  dsimp only at hgid
  split at hgid
  · exact hgid
  · rw [List.mem_singleton.mp hgid]
    exact List.mem_cons_self ..

theorem sysSetgroups_ok {outcome : Option Errno} {groups : List Nat} {ids ids' : Ids}
    (h : sysSetgroups outcome groups ids = .ok ids') :
    ids.euid = 0 ∧ ids' = { ids with groups := groups } := by
  cases outcome with
  | some errno => cases h
  | none =>
      rw [sysSetgroups] at h
      split at h
      · cases h
        exact ⟨‹_›, rfl⟩
      · cases h

theorem sysSetgid_ok {outcome : Option Errno} {gid : Nat} {ids ids' : Ids} (hroot : ids.euid = 0)
    (h : sysSetgid outcome gid ids = .ok ids') :
    ids' = { ids with rgid := gid, egid := gid, sgid := gid } := by
  cases outcome with
  | some errno => cases h
  | none =>
      rw [sysSetgid, if_pos hroot] at h
      exact (Except.ok.inj h).symm

theorem sysSetuid_ok {outcome : Option Errno} {uid : Nat} {ids ids' : Ids} (hroot : ids.euid = 0)
    (h : sysSetuid outcome uid ids = .ok ids') :
    ids' = { ids with ruid := uid, euid := uid, suid := uid } := by
  cases outcome with
  | some errno => cases h
  | none =>
      rw [sysSetuid, if_pos hroot] at h
      exact (Except.ok.inj h).symm

/-- The ids after the drop are the target's: setting the groups takes the superuser,
and for the superuser the two calls after it set every id. -/
structure Dropped (sys : System) (target : Passwd) (ids : Ids) : Prop where
  uids : ids.ruid = target.uid ∧ ids.euid = target.uid ∧ ids.suid = target.uid
  gids : ids.rgid = target.gid ∧ ids.egid = target.gid ∧ ids.sgid = target.gid
  groups : ∀ gid ∈ ids.groups, gid ∈ sys.groupsOf target.name target.gid

theorem contract_dropPrivs (sys : System) (o : Outcomes) (target : Passwd) :
    Contract pre (dropPrivs sys o target) fun _ m => Dropped sys target m.ids := by
  let privileged : Ids → Prop := fun ids => ids.euid = 0 ∧ ids.groups = groupList sys o target
  let grouped : Ids → Prop := fun ids => privileged ids ∧
    ids.rgid = target.gid ∧ ids.egid = target.gid ∧ ids.sgid = target.gid
  have hmalloc : Contract pre (orDie "malloc" o.malloc) fun _ _ => True :=
    (contract_orDie _ _).imp (fun _ h => h) fun _ _ _ => trivial
  refine hmalloc.bind fun _ => (contract_changeIds (fun _ => True) privileged ?_).bind fun _ =>
    (contract_changeIds privileged grouped ?_).bind fun _ =>
    (contract_changeIds grouped (Dropped sys target) ?_).bind fun _ => ?_
  · intro ids ids' _ hcall
    obtain ⟨hroot, rfl⟩ := sysSetgroups_ok hcall
    exact ⟨hroot, rfl⟩
  · intro ids ids' hids hcall
    obtain rfl := sysSetgid_ok hids.1 hcall
    exact ⟨hids, rfl, rfl, rfl⟩
  · intro ids ids' hids hcall
    obtain rfl := sysSetuid_ok hids.1.1 hcall
    refine ⟨⟨rfl, rfl, rfl⟩, hids.2, ?_⟩
    show ∀ gid ∈ ids.groups, _
    rw [hids.1.2]
    exact groupList_subset sys o target
  · have hget : Contract (fun m => Dropped sys target m.ids) (get : Main Machine)
        fun _ m => Dropped sys target m.ids := contract_get fun m hm => hm
    refine hget.bind fun machine => ?_
    split
    · exact contract_pure fun m hm => hm
    · exact contract_dieMsg _

/-- What the lookups and the caller check have established. -/
structure Resolved (sys : System) (argv : List CStr) (start : Ids) (target bridge : Passwd) :
    Prop where
  named : ∃ program username, argv = [program, Text.ascii "--user", username] ∧
    validUsername username = true ∧ sys.lookup username = some target
  notRoot : target.uid ≠ 0
  caller : sys.lookup bridgeUser = some bridge ∧ start.ruid = bridge.uid

/-- The buffer holds the target by then. -/
theorem contract_resolveUsers (sys : System) (o : Outcomes) (argv : List CStr) (start : Ids) :
    Contract (fun m => m.ids = start) (resolveUsers sys o argv)
      fun found m => m.pwbuf = found.2 ∧ ∃ bridge, Resolved sys argv start found.2 bridge := by
  refine (contract_verifyCaller sys o start).bind fun ptr =>
    (contract_parseArgs argv).bind fun username => ?_
  intro m found finish hm hrun
  obtain ⟨⟨hids, hcaller⟩, ⟨program, hargs⟩, hvalid⟩ := hm
  have htarget : Contract (fun m => m.ids = start)
      (resolveTarget sys o username >>= fun target => pure (ptr, target))
      fun found m => m.pwbuf = found.2 ∧ sys.lookup username = some found.2 ∧ found.2.uid ≠ 0 :=
    (contract_resolveTarget sys o hvalid (· = start)).bind fun target =>
      contract_pure fun m hm => hm.2
  obtain ⟨hbuffer, hlookup, hroot⟩ := htarget m found finish hids hrun
  exact ⟨hbuffer, m.pwbuf, ⟨program, username, hargs, hvalid, hlookup⟩, hroot, hcaller⟩

/-- `connect()` is called as the user who was named. -/
theorem contract_startUp (sys : System) (o : Outcomes) (argv : List CStr) (start : Ids) :
    Contract (fun m => m.ids = start) (startUp sys o argv)
      fun _ m => Identified sys argv start m.ids := by
  have hresolve : Contract (fun m => m.ids = start) (resolveUsers sys o argv)
      fun found _ => ∃ bridge, Resolved sys argv start found.2 bridge :=
    (contract_resolveUsers sys o argv start).imp (fun _ h => h) fun _ _ h => h.2
  refine hresolve.bind fun found => contract_of_known fun ⟨bridge, resolved⟩ => ?_
  refine (contract_checkSocket sys found.1).bind fun _ =>
    (contract_dropPrivs sys o found.2).bind fun _ =>
    (contract_orDieWith "socket" o.socket).bind fun sockFd => ?_
  have hmodify : Contract (fun m => Dropped sys found.2 m.ids ∧ o.socket = .ok sockFd)
      (modify fun machine => { machine with fds := sockFd :: machine.fds } : Main PUnit)
      fun _ m => Dropped sys found.2 m.ids := contract_modify fun m hm => hm.1
  exact hmodify.bind fun _ => contract_pure fun m hdropped =>
    ⟨found.2, bridge, resolved.named, resolved.notRoot, hdropped.uids, hdropped.gids,
      hdropped.groups, resolved.caller⟩

variable (known : Ids → Prop)

theorem contract_setNoNewPrivs (ctx : String) (outcome : Option Errno) :
    Contract (fun m => known m.ids) (setNoNewPrivs ctx outcome)
      fun _ m => known m.ids ∧ m.noNewPrivs = true :=
  (contract_orDie ctx outcome).bind fun _ => contract_modify fun _ hm => ⟨hm, rfl⟩

theorem fsRights_v1 (abi : Nat) : fsRights abi &&& landlockFsV1 = landlockFsV1 := by
  unfold fsRights
  split <;> split <;> split <;> decide

theorem contract_applyLandlock (o : Outcomes) :
    Contract (fun m => known m.ids) (applyLandlock o) fun _ m => known m.ids ∧
      m.noNewPrivs = true ∧ ∃ ruleset ∈ m.landlock, ruleset.rules = [] ∧
        ruleset.handled &&& landlockFsV1 = landlockFsV1 := by
  unfold applyLandlock
  split
  · exact contract_dieMsg _
  · exact contract_dieMsg _
  · exact contract_stop _
  · rename_i abi _
    have hcreate : Contract (fun m => known m.ids)
        (orDieWith "landlock_create_ruleset" o.createRuleset) fun _ m => known m.ids :=
      (contract_orDieWith _ _).imp (fun _ h => h) fun _ _ h => h.1
    refine hcreate.bind fun _ => (contract_setNoNewPrivs known _ _).bind fun _ =>
      (contract_orDie _ _).bind fun _ => contract_modify fun m hm => ?_
    exact ⟨hm.1, hm.2, _, List.mem_cons_self .., rfl, fsRights_v1 abi⟩

theorem contract_applySeccomp {kept : Machine → Prop} (o : Outcomes)
    (h : ∀ m, kept m → kept { m with seccomp := some allowed }) :
    Contract kept (applySeccomp o) fun _ m => kept m ∧ m.seccomp = some allowed :=
  (contract_orDie "seccomp_init" o.seccompInit).bind fun _ =>
    (contract_forM fun _ _ => contract_orDie _ _).bind fun _ =>
    (contract_orDie "seccomp_load" o.seccompLoad).bind fun _ =>
    contract_modify fun m hm => ⟨h m hm, rfl⟩

/-- The relay begins locked down, and the ids have not changed since `connect()`. -/
theorem contract_lockDown (o : Outcomes) (sockFd : Nat) :
    Contract (fun m => known m.ids) (lockDown o sockFd) fun _ m => known m.ids ∧ LockedDown m := by
  have hclose : Contract (fun m => known m.ids) (closeExtraFds o sockFd) fun _ m => known m.ids :=
    contract_modify fun m hm => hm
  have hpre : Contract (fun m => known m.ids) (setNoNewPrivs "prctl NO_NEW_PRIVS" o.noNewPrivs)
      fun _ m => known m.ids :=
    (contract_setNoNewPrivs known _ _).imp (fun _ h => h) fun _ _ h => h.1
  refine (contract_orDie _ _).bind fun _ => hclose.bind fun _ => hpre.bind fun _ =>
    (contract_applyLandlock known o).bind fun _ => ?_
  refine (contract_applySeccomp o ?_).imp (fun _ h => h) fun _ m h => ?_
  · exact fun m hm => hm
  · exact ⟨h.1.1, h.1.2.1, h.1.2.2, h.2⟩

/-- Whatever the calls come to, an execution that reaches `connect()` has the ids of
the account that was named, and one that reaches `bridge()` is locked down
besides. -/
theorem fails_closed {sys : System} {o : Outcomes} {argv : List CStr} {start atConnect : Machine}
    {sockFd : Nat} (h : startUp sys o argv start = .ok (sockFd, atConnect)) :
    Identified sys argv start.ids atConnect.ids ∧
      ∀ atBridge, lockDown o sockFd atConnect = .ok ((), atBridge) →
        Identified sys argv start.ids atBridge.ids ∧ LockedDown atBridge := by
  have hconnect := contract_startUp sys o argv start.ids start sockFd atConnect rfl h
  exact ⟨hconnect, fun atBridge hbridge =>
    contract_lockDown (Identified sys argv start.ids) o sockFd atConnect () atBridge hconnect
      hbridge⟩

/-- Every call succeeds. -/
def noFailure : Outcomes where
  bridgeFound := true
  targetFound := true
  ngroupsMax := 65536
  malloc := none
  grouplist := true
  setgroups := none
  setgid := none
  setuid := none
  probe := none
  socket := .ok 3
  connect := none
  openMax := 1024
  opendir := true
  noNewPrivs := none
  landlockAbi := .ok 3
  createRuleset := .ok 4
  landlockPreStep := none
  restrictSelf := none
  seccompInit := none
  ruleAdd := fun _ => none
  seccompLoad := none

def vnctlsd : Passwd := ⟨bridgeUser, 990, 990⟩
def alice : Passwd := ⟨Text.ascii "alice", 1000, 1000⟩

/-- The socket and its directory have the owner `uid`. -/
def ownedFiles (uid : Nat) : Files := fun path =>
  if path = daemonSocket then .ok ⟨0o140600, uid⟩
  else if path = parentDir daemonSocket then .ok ⟨0o040755, uid⟩
  else .error (.other 2)

def site (owner : Nat) : System :=
  ⟨[vnctlsd, alice], [⟨44, [Text.ascii "alice"]⟩], ownedFiles owner⟩

/-- The helper as the bridge starts it, with the ids its set-user-id bit gives. -/
def started (uid : Nat) : Machine :=
  ⟨⟨uid, 0, 0, uid, uid, uid, [uid]⟩, ⟨[], 0, 0⟩, [0, 1, 2], false, [], none⟩

def forAlice : List CStr := [Text.ascii "vnctl-user-pipe", Text.ascii "--user", Text.ascii "alice"]

theorem fails_closed_alice :
    ∃ atConnect atBridge, startUp (site 1000) noFailure forAlice (started 990) =
        .ok (3, atConnect) ∧ lockDown noFailure 3 atConnect = .ok ((), atBridge) ∧
      Identified (site 1000) forAlice (started 990).ids atBridge.ids ∧ LockedDown atBridge := by
  have hconnect : ∃ atConnect, startUp (site 1000) noFailure forAlice (started 990) =
      .ok (3, atConnect) := ⟨_, rfl⟩
  obtain ⟨atConnect, hstart⟩ := hconnect
  have hbridge : ∃ atBridge, lockDown noFailure 3 atConnect = .ok ((), atBridge) := ⟨_, rfl⟩
  obtain ⟨atBridge, hlock⟩ := hbridge
  exact ⟨atConnect, atBridge, hstart, hlock, (fails_closed hstart).2 atBridge hlock⟩

end Vnctlsd.Helper
