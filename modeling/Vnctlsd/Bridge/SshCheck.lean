import Vnctlsd.Bridge.SshRelay
import Vnctlsd.Helper.DaemonCheck

/-! The start of `vnctlsd-ssh-bridge`, and its check of the daemon's socket against
that of the setuid helper: the same socket is never right for both, but for a user
with the uid of the daemon's account.  The helper asks as root and this program as the
user, who may be refused an answer.  Paths are the bytes the kernel sees, and `shown`
is what `str(exc)` says of an error. -/
namespace Vnctlsd.SshBridge
open Vnctlsd.Python
open Vnctlsd.Helper (CStr Errno Files System OwnedBy Sound Outcomes Machine)

def enoent : Errno := .other 2
def eacces : Errno := .other 13

/-- `os.path.dirname`. -/
def dirname (path : CStr) : CStr :=
  let head := (path.reverse.dropWhile (· != 0x2f)).reverse
  if head.all (· == 0x2f) then head else (head.reverse.dropWhile (· == 0x2f)).reverse

/-- `os.path.dirname(path) or "."`. -/
def parent (path : CStr) : CStr :=
  if (dirname path).isEmpty then Text.ascii "." else dirname path

variable (sys : System) (own : Files) (shown : Errno → CStr → String)

/-- What `lstat` and the password database leave of the socket's entry to complain
about. -/
def entryDefect (st : Validation.Stat) : Option String :=
  if Helper.isLnk st.mode then some "is a symlink"
  else if !Validation.isSock st.mode then some "not a socket"
  else match sys.lookup Helper.bridgeUser with
    | none => some "daemon account '_vnctlsd' not found on this system"
    | some daemon =>
        let owner := st.uid
        if owner ≠ daemon.uid then some s!"not owned by _vnctlsd (owner uid={owner})" else none

/-- `own` is what `lstat` answers the user. -/
def checkSocket (path : CStr) : Option String :=
  match own (parent path) with
  | .error exc =>
      let text := shown exc (parent path)
      some s!"cannot stat parent directory: {text}"
  | .ok dir =>
      if Validation.otherWritable dir.mode then some "parent directory is world-writable"
      else match own path with
        | .error exc =>
            if exc = enoent then some "daemon not running or socket not configured"
            else some (shown exc path)
        | .ok st => entryDefect sys st

/-- How `main` goes on: it leaves with status 1 and a line on stderr, or relays. -/
inductive Start where
  | exits (line : String)
  | relays (relay : Relay)
  deriving DecidableEq

/-- `main` up to its loop; `connect` is what the calls of `socket` and `connect` come
to, and `name` the path as it was given. -/
def main (path : CStr) (name : String) (connect : Option Errno) : Start :=
  match checkSocket sys own shown path, connect with
  | some err, _ => .exits s!"vnctlsd: {name}: {err}\n"
  | none, some exc =>
      if exc = eacces ∨ exc = .perm then .exits s!"vnctlsd: {name}: permission denied\n"
      else
        let text := shown exc path
        .exits s!"vnctlsd: cannot connect to {name}: {text}\n"
  | none, none => .relays .select

/-- What the check lets through: a socket of the daemon's account, no link, in a
directory that not everybody may write to.  Whose the directory is, is not asked. -/
structure Accepted (path : CStr) (daemon : Helper.Passwd) : Prop where
  directory : ∃ dir, own (parent path) = .ok dir ∧ Validation.otherWritable dir.mode = false
  entry : ∃ st, own path = .ok st ∧ Helper.isLnk st.mode = false ∧
    Validation.isSock st.mode = true ∧ st.uid = daemon.uid

/-- `lstat` tells the user what it tells root, or fails. -/
def Answers (files own : Files) : Prop := ∀ path st, own path = .ok st → files path = .ok st

/-- What the check asks for the user gets an answer to. -/
def Answered (own : Files) (path : CStr) : Prop :=
  (∃ dir, own (parent path) = .ok dir) ∧ ∃ st, own path = .ok st

variable {sys} {own} {shown} {path : CStr}

theorem entryDefect_eq_none {st : Validation.Stat} : entryDefect sys st = none ↔
    Helper.isLnk st.mode = false ∧ Validation.isSock st.mode = true ∧
      ∃ daemon, sys.lookup Helper.bridgeUser = some daemon ∧ st.uid = daemon.uid := by
  unfold entryDefect
  cases sys.lookup Helper.bridgeUser <;> cases Helper.isLnk st.mode <;>
    cases Validation.isSock st.mode <;> simp

theorem checkSocket_eq_none : checkSocket sys own shown path = none ↔
    ∃ daemon, sys.lookup Helper.bridgeUser = some daemon ∧ Accepted own path daemon := by
  unfold checkSocket
  constructor
  · intro h
    split at h
    · cases h
    · rename_i dir hdir
      split at h
      · cases h
      · rename_i hwritable
        split at h
        · split at h <;> cases h
        · rename_i st hst
          obtain ⟨hlink, hsock, daemon, hdaemon, huid⟩ := entryDefect_eq_none.mp h
          exact ⟨daemon, hdaemon, ⟨dir, hdir, Bool.of_not_eq_true hwritable⟩,
            ⟨st, hst, hlink, hsock, huid⟩⟩
  · rintro ⟨daemon, hdaemon, ⟨dir, hdir, hwritable⟩, ⟨st, hst, hlink, hsock, huid⟩⟩
    simp only [hdir, hwritable, hst]
    exact entryDefect_eq_none.mpr ⟨hlink, hsock, daemon, hdaemon, huid⟩

/-- The loop is reached over an accepted socket only. -/
theorem main_eq_relays {name : String} {connect : Option Errno} :
    main sys own shown path name connect = .relays .select ↔
      checkSocket sys own shown path = none ∧ connect = none := by
  unfold main
  split
  · rename_i hcheck
    simp [hcheck]
  · split <;> simp
  · rename_i hcheck
    simp [hcheck]

/-- The two programs look at one directory. -/
theorem parent_daemonSocket :
    parent Helper.daemonSocket = Helper.parentDir Helper.daemonSocket := by
  decide

/-- Who may not write as group or other may not write as other. -/
theorem otherWritable_of_groupOrOther {mode : Nat}
    (h : Helper.groupOrOtherWritable mode = false) : Validation.otherWritable mode = false := by
  have hboth : mode &&& 0o022 = 0 := by simpa [Helper.groupOrOtherWritable] using h
  have hother : mode &&& 0o002 = 0 := by
    have hmask : (0o002 : Nat) = 0o022 &&& 0o002 := by decide
    rw [hmask, ← Nat.and_assoc, hboth, Nat.zero_and]
  simp [Validation.otherWritable, hother]

/-- What the helper lets through for a uid is accepted here where that is the uid of
the daemon's account and the user may ask. -/
theorem accepted_iff_of_sound {uid : Nat} {daemon : Helper.Passwd} (h : Sound sys.files uid)
    (hown : Answers sys.files own) :
    Accepted own Helper.daemonSocket daemon ↔
      uid = daemon.uid ∧ Answered own Helper.daemonSocket := by
  obtain ⟨dir, st, hdir, hst, -, hmode, hlink, hsock, huid⟩ := h
  constructor
  · rintro ⟨⟨ownDir, hownDir, -⟩, ⟨ownSt, hownSt, -, -, howner⟩⟩
    refine ⟨?_, ⟨ownDir, hownDir⟩, ⟨ownSt, hownSt⟩⟩
    obtain rfl : st = ownSt := Except.ok.inj (hst.symm.trans (hown _ _ hownSt))
    exact huid.symm.trans howner
  · rintro ⟨rfl, ⟨ownDir, hownDir⟩, ⟨ownSt, hownSt⟩⟩
    obtain rfl : st = ownSt := Except.ok.inj (hst.symm.trans (hown _ _ hownSt))
    have hseen : sys.files (parent Helper.daemonSocket) = .ok ownDir := hown _ _ hownDir
    obtain rfl : dir = ownDir :=
      Except.ok.inj (hdir.symm.trans (parent_daemonSocket ▸ hseen))
    exact ⟨⟨dir, hownDir, otherWritable_of_groupOrOther hmode⟩, ⟨st, hownSt, hlink, hsock, huid⟩⟩

/-- A helper that calls `connect()` has found the socket in the hands of its target. -/
theorem sound_of_connecting {o : Outcomes} {argv : List CStr} {start m : Machine} {sockFd : Nat}
    (h : Helper.startUp sys o argv start = .ok (sockFd, m)) :
    ∃ target bridge, Helper.Identity sys argv start.ids m.ids target bridge ∧
      Sound sys.files target.uid := by
  obtain ⟨target, bridge, identity⟩ :=
    Helper.contract_startUp sys o argv start.ids start sockFd m rfl h
  obtain ⟨program, username, hargv, -, hlookup⟩ := identity.named
  have hsound : Sound sys.files target.uid :=
    (Helper.sound_of_startUp hlookup (by rwa [Helper.invocation, ← hargv])).1
  exact ⟨target, bridge, identity, hsound⟩

/-- Of the two ways to the daemon at most one is open to a user: where the helper
calls `connect()` for them, the SSH bridge relays exactly if they have the uid of the
daemon's account, `lstat` answers them and their own `connect()` succeeds. -/
theorem one_way_in {o : Outcomes} {argv : List CStr} {start m : Machine} {sockFd : Nat}
    (h : Helper.startUp sys o argv start = .ok (sockFd, m)) (hown : Answers sys.files own) :
    ∃ target bridge, Helper.Identity sys argv start.ids m.ids target bridge ∧
      ∀ shown name connect, main sys own shown Helper.daemonSocket name connect = .relays .select ↔
        target.uid = bridge.uid ∧ Answered own Helper.daemonSocket ∧ connect = none := by
  obtain ⟨target, bridge, identity, hsound⟩ := sound_of_connecting h
  refine ⟨target, bridge, identity, fun shown name connect => ?_⟩
  rw [main_eq_relays, checkSocket_eq_none, ← and_assoc]
  apply and_congr_left'
  constructor
  · rintro ⟨daemon, hdaemon, haccepted⟩
    obtain rfl : bridge = daemon := Option.some.inj (identity.caller.1.symm.trans hdaemon)
    exact (accepted_iff_of_sound hsound hown).mp haccepted
  · intro hsame
    exact ⟨bridge, identity.caller.1, (accepted_iff_of_sound hsound hown).mpr hsame⟩

/-- Only root may search the directory. -/
def locked : Files := fun _ => .error eacces

/-- The socket is alice's: the helper connects for her, and the SSH bridge does not
relay, nor would it if the directory were closed to her. -/
theorem one_way_in_alice : ∃ m, Helper.startUp (Helper.site 1000) Helper.noFailure Helper.forAlice
      (Helper.started 990) = .ok (3, m) ∧
    ∀ own ∈ [(Helper.site 1000).files, locked],
      ∃ target bridge, Helper.Identity (Helper.site 1000) Helper.forAlice (Helper.started 990).ids
          m.ids target bridge ∧
        ∀ shown name connect, main (Helper.site 1000) own shown Helper.daemonSocket name connect =
          .relays .select ↔
            target.uid = bridge.uid ∧ Answered own Helper.daemonSocket ∧ connect = none := by
  have hconnect : ∃ m, Helper.startUp (Helper.site 1000) Helper.noFailure Helper.forAlice
      (Helper.started 990) = .ok (3, m) := ⟨_, rfl⟩
  obtain ⟨m, hstart⟩ := hconnect
  refine ⟨m, hstart, fun own hmem => one_way_in hstart ?_⟩
  intro path st hst
  simp only [List.mem_cons, List.not_mem_nil, or_false] at hmem
  rcases hmem with rfl | rfl
  · exact hst
  · cases hst

end Vnctlsd.SshBridge
