import Vnctlsd.Helper.Accounts

/-! The start-up of the setuid helper, from the caller check to the relay.  Each
library and system call has its outcome in `Outcomes`, `none` or `ok` where it
succeeds; what a call does to the ids is the kernel's. -/
namespace Vnctlsd.Helper
open Vnctlsd.Library.FailStop Vnctlsd.Python

structure Outcomes where
  bridgeFound : Bool
  targetFound : Bool
  ngroupsMax : Int
  malloc : Option Errno
  grouplist : Bool
  setgroups : Option Errno
  setgid : Option Errno
  setuid : Option Errno
  probe : Option Errno
  socket : Except Errno Nat
  connect : Option Errno
  openMax : Int
  opendir : Bool
  noNewPrivs : Option Errno
  landlockAbi : Except Errno Nat
  createRuleset : Except Errno Nat
  landlockPreStep : Option Errno
  restrictSelf : Option Errno
  seccompInit : Option Errno
  ruleAdd : String → Option Errno
  seccompLoad : Option Errno

def dieMsg (msg : String) : Main α := stop (.dieMsg msg)

/-- `if (call != 0) die(ctx)`. -/
def orDie (ctx : String) (outcome : Option Errno) : Main Unit :=
  match outcome with
  | some errno => stop (.die ctx errno)
  | none => pure ()

def orDieWith (ctx : String) (outcome : Except Errno α) : Main α :=
  match outcome with
  | .error errno => stop (.die ctx errno)
  | .ok value => pure value

/-- `setgroups`: the superuser only. -/
def sysSetgroups (outcome : Option Errno) (groups : List Nat) (ids : Ids) : Except Errno Ids :=
  match outcome with
  | some errno => .error errno
  | none => if ids.euid = 0 then .ok { ids with groups := groups } else .error .perm

/-- `setgid` and `setuid` set all three ids for the superuser, and the effective one
alone, to the real or saved one, for anybody else. -/
def sysSetgid (outcome : Option Errno) (gid : Nat) (ids : Ids) : Except Errno Ids :=
  match outcome with
  | some errno => .error errno
  | none =>
      if ids.euid = 0 then .ok { ids with rgid := gid, egid := gid, sgid := gid }
      else if gid = ids.rgid ∨ gid = ids.sgid then .ok { ids with egid := gid }
      else .error .perm

def sysSetuid (outcome : Option Errno) (uid : Nat) (ids : Ids) : Except Errno Ids :=
  match outcome with
  | some errno => .error errno
  | none =>
      if ids.euid = 0 then .ok { ids with ruid := uid, euid := uid, suid := uid }
      else if uid = ids.ruid ∨ uid = ids.suid then .ok { ids with euid := uid }
      else .error .perm

def changeIds (ctx : String) (call : Ids → Except Errno Ids) : Main Unit := do
  let machine ← get
  let ids ← orDieWith ctx (call machine.ids)
  set { machine with ids := ids }

def verifyCaller (sys : System) (o : Outcomes) : Main PasswdPtr := do
  match ← getpwnam sys o.bridgeFound bridgeUser with
  | none => dieMsg "cannot resolve _vnctlsd account"
  | some bridgePw => do
      let machine ← get
      let bridge ← deref bridgePw
      if machine.ids.ruid ≠ bridge.uid then dieMsg "caller is not _vnctlsd"
      else pure bridgePw

def parseArgs (argv : List CStr) : Main CStr :=
  match argv with
  | [_, flag, username] =>
      if flag ≠ Text.ascii "--user" then dieMsg "usage: vnctl-user-pipe --user USERNAME"
      else if validUsername username then pure username
      else dieMsg "invalid username"
  | _ => dieMsg "usage: vnctl-user-pipe --user USERNAME"

/-- The fields are copied out of the buffer, the name into one of 256 bytes. -/
def resolveTarget (sys : System) (o : Outcomes) (username : CStr) : Main Passwd := do
  match ← getpwnam sys o.targetFound username with
  | none => dieMsg "unknown user"
  | some targetPw => do
      let target ← deref targetPw
      if target.uid = 0 then dieMsg "target user is root — not permitted"
      else pure { target with name := target.name.take 255 }

def parentDir (path : CStr) : CStr :=
  match (path.take 255).reverse.dropWhile (· != 0x2f) with
  | _ :: front => if front.isEmpty then Text.ascii "." else front.reverse
  | [] => Text.ascii "."

def daemonSocket : CStr := Text.ascii "/run/vnctlsd/vnctlsd.sock"

example : parentDir daemonSocket = Text.ascii "/run/vnctlsd" := by decide

def groupOrOtherWritable (mode : Nat) : Bool := mode &&& 0o022 != 0
def isLnk (mode : Nat) : Bool := mode &&& 0o170000 == 0o120000

def checkDaemonSocket (files : Files) (path : CStr) (daemonUid : Nat) : Main Unit := do
  let dir ← orDieWith "stat socket directory" (files (parentDir path))
  if dir.uid ≠ daemonUid then dieMsg "daemon socket directory not owned by _vnctlsd"
  else if groupOrOtherWritable dir.mode then
    dieMsg "daemon socket directory is group- or world-writable"
  else do
    let st ← orDieWith "stat daemon socket" (files path)
    if isLnk st.mode then dieMsg "daemon socket is a symlink"
    else if !Validation.isSock st.mode then dieMsg "daemon socket is not a socket"
    else if st.uid ≠ daemonUid then dieMsg "daemon socket not owned by _vnctlsd"
    else pure ()

/-- The list does not fit, or cannot be had: the primary group alone is left. -/
def groupList (sys : System) (o : Outcomes) (target : Passwd) : List Nat :=
  let groups := sys.groupsOf target.name target.gid
  let room := if o.ngroupsMax ≤ 0 then 65536 else o.ngroupsMax.toNat
  if o.grouplist ∧ groups.length ≤ room then groups else [target.gid]

def dropPrivs (sys : System) (o : Outcomes) (target : Passwd) : Main Unit := do
  orDie "malloc" o.malloc
  changeIds "setgroups" (sysSetgroups o.setgroups (groupList sys o target))
  changeIds "setgid" (sysSetgid o.setgid target.gid)
  changeIds "setuid" (sysSetuid o.setuid target.uid)
  let machine ← get
  match sysSetuid o.probe 0 machine.ids with
  | .error .perm => pure ()
  | _ => dieMsg "privilege drop verification failed — setuid(0) succeeded"

/-- Steps 2 to 4: the caller, the argument and the target. -/
def resolveUsers (sys : System) (o : Outcomes) (argv : List CStr) : Main (PasswdPtr × Passwd) := do
  let bridgePw ← verifyCaller sys o
  let username ← parseArgs argv
  let target ← resolveTarget sys o username
  pure (bridgePw, target)

/-- The check reads the daemon's uid through the pointer of the first lookup. -/
def checkSocket (sys : System) (bridgePw : PasswdPtr) : Main Unit := do
  let bridge ← deref bridgePw
  checkDaemonSocket sys.files daemonSocket bridge.uid

/-- `main` up to the call of `connect()`. -/
def startUp (sys : System) (o : Outcomes) (argv : List CStr) : Main Nat := do
  let (bridgePw, target) ← resolveUsers sys o argv
  checkSocket sys bridgePw
  dropPrivs sys o target
  let sockFd ← orDieWith "socket" o.socket
  modify fun machine => { machine with fds := sockFd :: machine.fds }
  pure sockFd

def closeExtraFds (o : Outcomes) (keepFd : Nat) : Main Unit :=
  let maxfd := if o.openMax ≤ 0 then 1024 else o.openMax.toNat
  modify fun machine => { machine with
    fds := machine.fds.filter fun fd =>
      fd < 3 || fd == keepFd || (!o.opendir && maxfd ≤ fd) }

def setNoNewPrivs (ctx : String) (outcome : Option Errno) : Main Unit := do
  orDie ctx outcome
  modify fun machine => { machine with noNewPrivs := true }

def landlockFsV1 : Nat := 0x1fff

def fsRights (abi : Nat) : Nat :=
  landlockFsV1 ||| (if 2 ≤ abi then 1 <<< 13 else 0) ||| (if 3 ≤ abi then 1 <<< 14 else 0) |||
    (if 4 ≤ abi then 1 <<< 15 else 0)

/-- `landlock_restrict_self` on a ruleset to which no rule was added. -/
def applyLandlock (o : Outcomes) : Main Unit :=
  match o.landlockAbi with
  | .error .noSys | .error .opNotSupp =>
      dieMsg "landlock required but unavailable (need Linux ≥ 5.13)"
  | .error errno => stop (.die "landlock_create_ruleset version probe" errno)
  | .ok abi => do
      let _ ← orDieWith "landlock_create_ruleset" o.createRuleset
      setNoNewPrivs "prctl NO_NEW_PRIVS (landlock pre-step)" o.landlockPreStep
      orDie "landlock_restrict_self" o.restrictSelf
      modify fun machine => { machine with landlock := ⟨fsRights abi, []⟩ :: machine.landlock }

def allowed : List String :=
  ["read", "write", "poll", "ppoll", "select", "pselect6", "shutdown", "close", "recvfrom",
    "sendto", "recvmsg", "sendmsg", "exit", "exit_group", "rt_sigreturn", "restart_syscall",
    "brk", "mmap", "munmap", "mprotect", "futex", "clock_gettime", "getpid", "gettid"]

def allow (o : Outcomes) (name : String) : Main Unit :=
  orDie s!"seccomp_rule_add({name})" (o.ruleAdd name)

def applySeccomp (o : Outcomes) : Main Unit := do
  orDie "seccomp_init" o.seccompInit
  allowed.forM (allow o)
  orDie "seccomp_load" o.seccompLoad
  modify fun machine => { machine with seccomp := some allowed }

/-- `main` from `connect()` up to the call of `bridge()`. -/
def lockDown (o : Outcomes) (sockFd : Nat) : Main Unit := do
  orDie "connect /run/vnctlsd/vnctlsd.sock" o.connect
  closeExtraFds o sockFd
  setNoNewPrivs "prctl NO_NEW_PRIVS" o.noNewPrivs
  applyLandlock o
  applySeccomp o

end Vnctlsd.Helper
