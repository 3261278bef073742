import Vnctlsd.Helper.FailsClosed

/-! Whose socket the helper connects to.  The check reads the daemon's uid through
the pointer of the first lookup, after the second one has overwritten the buffer. -/
namespace Vnctlsd.Helper
open Vnctlsd.Library.FailStop Vnctlsd.Python

/-- What `check_daemon_socket` lets through. -/
def Sound (files : Files) (uid : Nat) : Prop :=
  ∃ dir st, files (parentDir daemonSocket) = .ok dir ∧ files daemonSocket = .ok st ∧
    dir.uid = uid ∧ groupOrOtherWritable dir.mode = false ∧
    isLnk st.mode = false ∧ Validation.isSock st.mode = true ∧ st.uid = uid

/-- A socket and its directory, both owned by `uid`. -/
def OwnedBy (files : Files) (uid : Nat) : Prop :=
  ∃ dir st, files (parentDir daemonSocket) = .ok dir ∧ files daemonSocket = .ok st ∧
    dir.uid = uid ∧ st.uid = uid

/-- A socket and its directory, both owned by `uid` and neither a symbolic link, the
directory not writable by the group or by others: the socket is, by design. -/
def Trustworthy (files : Files) (uid : Nat) : Prop :=
  ∃ dir st, files (parentDir daemonSocket) = .ok dir ∧ files daemonSocket = .ok st ∧
    dir.uid = uid ∧ groupOrOtherWritable dir.mode = false ∧ isLnk dir.mode = false ∧
    st.uid = uid ∧ Validation.isSock st.mode = true ∧ isLnk st.mode = false

theorem Sound.ownedBy {files : Files} {uid : Nat} (h : Sound files uid) : OwnedBy files uid := by
  obtain ⟨dir, st, hdir, hst, hduid, -, -, -, hsuid⟩ := h
  exact ⟨dir, st, hdir, hst, hduid, hsuid⟩

theorem Trustworthy.sound {files : Files} {uid : Nat} (h : Trustworthy files uid) :
    Sound files uid := by
  obtain ⟨dir, st, hdir, hst, hduid, hdmode, -, hsuid, hsock, hlink⟩ := h
  exact ⟨dir, st, hdir, hst, hduid, hdmode, hlink, hsock, hsuid⟩

/-- A file has one owner. -/
theorem OwnedBy.unique {files : Files} {uid uid' : Nat} (h : OwnedBy files uid)
    (h' : OwnedBy files uid') : uid = uid' := by
  obtain ⟨dir, st, hdir, -, rfl, -⟩ := h
  obtain ⟨dir', st', hdir', -, rfl, -⟩ := h'
  rw [hdir] at hdir'
  cases hdir'
  rfl

@[simp] theorem dieMsg_eq_ok_iff (msg : String) (m : Machine) (out : α × Machine) :
    (dieMsg msg : Main α) m = .ok out ↔ False := stop_eq_ok_iff _ _ _

@[simp] theorem orDie_eq_ok_iff (ctx : String) (outcome : Option Errno) (m : Machine)
    (out : Unit × Machine) : orDie ctx outcome m = .ok out ↔ outcome = none ∧ ((), m) = out := by
  cases outcome <;> simp [orDie]

@[simp] theorem orDieWith_eq_ok_iff (ctx : String) (outcome : Except Errno α) (m : Machine)
    (out : α × Machine) :
    orDieWith ctx outcome m = .ok out ↔ ∃ value, outcome = .ok value ∧ (value, m) = out := by
  cases outcome <;> simp [orDieWith]

theorem checkDaemonSocket_eq_ok_iff (files : Files) (uid : Nat) (m m' : Machine) :
    checkDaemonSocket files daemonSocket uid m = .ok ((), m') ↔ m = m' ∧ Sound files uid := by
  simp only [checkDaemonSocket, Sound, bind_eq_ok_iff, ite_eq_ok_iff, orDieWith_eq_ok_iff,
    dieMsg_eq_ok_iff, pure_eq_ok_iff, Prod.mk.injEq, and_false, false_or, true_and]
  constructor
  · rintro ⟨dir, _, ⟨_, hdir, rfl, rfl⟩, hduid, hdmode, st, _, ⟨_, hst, rfl, rfl⟩, hlink, hsock,
      hsuid, rfl⟩
    refine ⟨rfl, _, _, hdir, hst, ?_, ?_, ?_, ?_, ?_⟩ <;> grind
  · rintro ⟨rfl, dir, st, hdir, hst, hduid, hdmode, hlink, hsock, hsuid⟩
    refine ⟨dir, m, ⟨dir, hdir, rfl, rfl⟩, ?_, ?_, st, m, ⟨st, hst, rfl, rfl⟩, ?_, ?_, ?_, rfl⟩ <;>
      grind

theorem checkSocket_eq_ok_iff (sys : System) (ptr : PasswdPtr) (m m' : Machine) :
    checkSocket sys ptr m = .ok ((), m') ↔ m = m' ∧ Sound sys.files m.pwbuf.uid := by
  simp [checkSocket, deref, checkDaemonSocket_eq_ok_iff]

/-- `vnctl-user-pipe --user USERNAME`. -/
def invocation (program username : CStr) : List CStr := [program, Text.ascii "--user", username]

variable {sys : System} {program username : CStr} {target bridge : Passwd}

/-- By the time of the check the buffer holds the target. -/
theorem pwbuf_of_resolveUsers {o : Outcomes} {start m : Machine} {found : PasswdPtr × Passwd}
    (hlookup : sys.lookup username = some target)
    (h : resolveUsers sys o (invocation program username) start = .ok (found, m)) :
    m.pwbuf = target ∧ ∃ bridge, sys.lookup bridgeUser = some bridge := by
  obtain ⟨hbuffer, bridge, resolved⟩ :=
    contract_resolveUsers sys o (invocation program username) start.ids start found m rfl h
  obtain ⟨_, _, hargs, -, hfound⟩ := resolved.named
  obtain ⟨rfl, rfl⟩ : program = _ ∧ username = _ := by simpa [invocation] using hargs
  rw [hlookup] at hfound
  exact ⟨hbuffer.trans (Option.some.inj hfound).symm, bridge, resolved.caller.1⟩

theorem resolveUsers_noFailure {start : Machine} (hvalid : validUsername username = true)
    (hlookup : sys.lookup username = some target) (hroot : target.uid ≠ 0)
    (hbridge : sys.lookup bridgeUser = some bridge) (hcaller : start.ids.ruid = bridge.uid) :
    resolveUsers sys noFailure (invocation program username) start =
      .ok ((.buffer, target), { start with pwbuf := target }) := by
  have hname := name_take_of_lookup hvalid hlookup
  simp [resolveUsers, verifyCaller, parseArgs, resolveTarget, invocation, noFailure, getpwnam,
    deref, hvalid, hlookup, hroot, hbridge, hcaller, hname, Nonempty.intro PasswdPtr.buffer]

/-- With the superuser's effective id and no call failing, the drop goes through. -/
theorem dropPrivs_noFailure {m : Machine} (hroot : target.uid ≠ 0) (heuid : m.ids.euid = 0) :
    ∃ m', dropPrivs sys noFailure target m = .ok ((), m') := by
  simp [dropPrivs, changeIds, noFailure, sysSetgroups, sysSetgid, sysSetuid, heuid, hroot,
    hroot.symm]

theorem startUp_noFailure {start : Machine} (hvalid : validUsername username = true)
    (hlookup : sys.lookup username = some target) (hroot : target.uid ≠ 0)
    (hbridge : sys.lookup bridgeUser = some bridge) (hcaller : start.ids.ruid = bridge.uid)
    (heuid : start.ids.euid = 0) (hsound : Sound sys.files target.uid) :
    ∃ m, startUp sys noFailure (invocation program username) start = .ok (3, m) := by
  obtain ⟨dropped, hdrop⟩ : ∃ dropped, dropPrivs sys noFailure target
      { start with pwbuf := target } = .ok ((), dropped) := dropPrivs_noFailure hroot heuid
  refine ⟨{ dropped with fds := 3 :: dropped.fds }, ?_⟩
  unfold startUp
  rw [bind_eq_ok_iff]
  refine ⟨_, _, resolveUsers_noFailure hvalid hlookup hroot hbridge hcaller, ?_⟩
  rw [bind_eq_ok_iff]
  refine ⟨(), _, (checkSocket_eq_ok_iff ..).mpr ⟨rfl, hsound⟩, ?_⟩
  rw [bind_eq_ok_iff]
  exact ⟨(), dropped, hdrop, rfl⟩

/-- Whatever the calls come to, an execution that reaches `connect()` has found the
socket in the hands of the target. -/
theorem sound_of_startUp {o : Outcomes} {start m : Machine} {sockFd : Nat}
    (hlookup : sys.lookup username = some target)
    (h : startUp sys o (invocation program username) start = .ok (sockFd, m)) :
    Sound sys.files target.uid ∧ ∃ bridge, sys.lookup bridgeUser = some bridge := by
  unfold startUp at h
  rw [bind_eq_ok_iff] at h
  obtain ⟨found, resolved, hresolve, h⟩ := h
  rw [bind_eq_ok_iff] at h
  obtain ⟨_, _, hcheck, -⟩ := h
  obtain ⟨hbuffer, hbridge⟩ := pwbuf_of_resolveUsers hlookup hresolve
  rw [← hbuffer]
  exact ⟨((checkSocket_eq_ok_iff ..).mp hcheck).2, hbridge⟩

/-- The helper checks the daemon's socket against the account of the bridge: it gets
to `connect()` on that account's socket only, and lets a trustworthy one through. -/
structure ChecksDaemon (sys : System) (username : CStr) : Prop where
  onlyOwned : ∀ program o start sockFd m,
    startUp sys o (invocation program username) start = .ok (sockFd, m) →
      ∃ bridge, sys.lookup bridgeUser = some bridge ∧ OwnedBy sys.files bridge.uid
  spares : ∀ program o start found m bridge,
    resolveUsers sys o (invocation program username) start = .ok (found, m) →
      sys.lookup bridgeUser = some bridge → Trustworthy sys.files bridge.uid →
      checkSocket sys found.1 m = .ok ((), m)

/-- It does where the target has the uid of that account, or the socket is sound for
neither of the two. -/
theorem checksDaemon_iff (hvalid : validUsername username = true)
    (hlookup : sys.lookup username = some target) (hroot : target.uid ≠ 0) :
    ChecksDaemon sys username ↔ ∀ bridge, sys.lookup bridgeUser = some bridge →
      bridge.uid = target.uid ∨
        (¬ Sound sys.files target.uid ∧ ¬ Trustworthy sys.files bridge.uid) := by
  constructor
  · intro hchecks bridge hbridge
    by_cases hsame : bridge.uid = target.uid
    · exact .inl hsame
    let start : Machine := ⟨⟨bridge.uid, 0, 0, 0, 0, 0, []⟩, target, [], false, [], none⟩
    have hresolve : resolveUsers sys noFailure (invocation [] username) start = _ :=
      resolveUsers_noFailure hvalid hlookup hroot hbridge rfl
    refine .inr ⟨fun hsound => hsame ?_, fun htrust => hsame ?_⟩
    · obtain ⟨m, hstart⟩ : ∃ m, startUp sys noFailure (invocation [] username) start = .ok (3, m) :=
        startUp_noFailure hvalid hlookup hroot hbridge rfl rfl hsound
      obtain ⟨bridge', hbridge', howned⟩ := hchecks.onlyOwned _ _ _ _ _ hstart
      rw [hbridge] at hbridge'
      cases hbridge'
      exact howned.unique hsound.ownedBy
    · have hcheck := hchecks.spares _ _ _ _ _ _ hresolve hbridge htrust
      have hsound := ((checkSocket_eq_ok_iff ..).mp hcheck).2
      exact htrust.sound.ownedBy.unique hsound.ownedBy
  · intro hcond
    refine ⟨fun program o start sockFd m hstart => ?_,
      fun program o start found m bridge hresolve hbridge htrust => ?_⟩
    · obtain ⟨hsound, bridge, hbridge⟩ := sound_of_startUp hlookup hstart
      rcases hcond bridge hbridge with hsame | ⟨hnot, -⟩
      · exact ⟨bridge, hbridge, hsame ▸ hsound.ownedBy⟩
      · exact absurd hsound hnot
    · rw [checkSocket_eq_ok_iff, (pwbuf_of_resolveUsers hlookup hresolve).1]
      rcases hcond bridge hbridge with hsame | ⟨-, hnot⟩
      · exact ⟨rfl, hsame ▸ htrust.sound⟩
      · exact absurd htrust hnot

/-- Another account with the uid of the bridge's. -/
def twin : Passwd := ⟨Text.ascii "daemon", 990, 990⟩

def twins : System := ⟨[vnctlsd, twin], [], ownedFiles 990⟩

/-- A socket of root's is refused for alice, as it should be, and the daemon's is found
for an account with the same uid. -/
theorem checksDaemon_iff_alice :
    ChecksDaemon (site 0) alice.name ∧ ChecksDaemon twins twin.name := by
  have hnotOwned : ∀ uid, uid ≠ 0 → ¬ OwnedBy (site 0).files uid := by
    rintro uid huid ⟨dir, st, hdir, -, hdirUid, -⟩
    cases hdir
    exact huid hdirUid.symm
  have halice : (site 0).lookup alice.name = some alice := by decide
  have htwin : twins.lookup twin.name = some twin := by decide
  constructor
  · refine (checksDaemon_iff (by decide) halice (by decide)).mpr fun bridge hbridge => .inr ?_
    cases hbridge
    exact ⟨fun hsound => hnotOwned _ (by decide) hsound.ownedBy,
      fun htrust => hnotOwned _ (by decide) htrust.sound.ownedBy⟩
  · refine (checksDaemon_iff (by decide) htwin (by decide)).mpr fun bridge hbridge => .inl ?_
    cases hbridge
    rfl

/-- For alice, her own socket is as good as the daemon's, and the daemon's own is
refused. -/
theorem alice_owns_daemonSocket :
    (∃ m, startUp (site 1000) noFailure forAlice (started 990) = .ok (3, m)) ∧
      ¬ OwnedBy (site 1000).files vnctlsd.uid ∧ ¬ ChecksDaemon (site 1000) alice.name ∧
    startUp (site 990) noFailure forAlice (started 990) =
        .error (.dieMsg "daemon socket directory not owned by _vnctlsd") ∧
      Trustworthy (site 990).files vnctlsd.uid ∧ ¬ ChecksDaemon (site 990) alice.name := by
  have hconnect : ∃ m, startUp (site 1000) noFailure forAlice (started 990) = .ok (3, m) := ⟨_, rfl⟩
  have hnotOwned : ¬ OwnedBy (site 1000).files vnctlsd.uid := by
    rintro ⟨dir, st, hdir, -, huid, -⟩
    cases hdir
    exact absurd huid (by decide)
  have htrust : Trustworthy (site 990).files vnctlsd.uid :=
    ⟨_, _, rfl, rfl, by decide, by decide, by decide, by decide, by decide, by decide⟩
  refine ⟨hconnect, hnotOwned, fun hchecks => ?_, rfl, htrust, fun hchecks => ?_⟩
  · obtain ⟨m, hstart⟩ := hconnect
    obtain ⟨bridge, hbridge, howned⟩ := hchecks.onlyOwned _ _ _ _ _ hstart
    cases hbridge
    exact hnotOwned howned
  · have hresolve : ∃ m, resolveUsers (site 990) noFailure forAlice (started 990) =
        .ok ((.buffer, alice), m) := ⟨_, rfl⟩
    obtain ⟨m, hresolve⟩ := hresolve
    have hcheck := hchecks.spares _ _ _ _ _ vnctlsd hresolve (by decide) htrust
    cases hresolve
    cases hcheck

end Vnctlsd.Helper
