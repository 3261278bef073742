import Vnctlsd.Library.FailStop
import Vnctlsd.Python.Text
import Vnctlsd.Validation

/-! The setuid helper's view of the system: user names as C strings, the user and
group databases, and the one buffer that `getpwnam` hands out pointers to. -/
namespace Vnctlsd.Helper
open Vnctlsd.Library.FailStop Vnctlsd.Python

/-- The bytes before the terminator. -/
abbrev CStr := List UInt8

def bridgeUser : CStr := Text.ascii "_vnctlsd"

def maxUsername : Nat := 64

/-- `isalnum` in the C locale. -/
def isAlnum (c : UInt8) : Bool :=
  (0x30 ≤ c && c ≤ 0x39) || (0x41 ≤ c && c ≤ 0x5a) || (0x61 ≤ c && c ≤ 0x7a)

/-- The loop of `valid_username`, with `n` characters behind it. -/
def validFrom (n : Nat) : CStr → Bool
  | [] => true
  | c :: rest =>
      if maxUsername ≤ n then false
      else if !isAlnum c && c != 0x2e && c != 0x5f && c != 0x2d then false
      else validFrom (n + 1) rest

def validUsername (s : CStr) : Bool := !s.isEmpty && validFrom 0 s

theorem length_le_of_validFrom {s : CStr} {n : Nat} (h : validFrom n s = true) :
    s = [] ∨ n + s.length ≤ maxUsername := by
  induction s generalizing n with
  | nil => exact .inl rfl
  | cons c rest ih =>
      right
      rw [validFrom] at h
      split at h
      · cases h
      · split at h
        · cases h
        · rw [List.length_cons]
          rcases ih h with rfl | hrest
          · rw [List.length_nil]
            omega
          · omega

theorem length_le_of_validUsername {s : CStr} (h : validUsername s = true) :
    s.length ≤ maxUsername := by
  rw [validUsername, Bool.and_eq_true] at h
  rcases length_le_of_validFrom h.2 with rfl | hlength
  · exact Nat.zero_le _
  · omega

structure Passwd where
  name : CStr
  uid : Nat
  gid : Nat
  deriving DecidableEq

structure Group where
  gid : Nat
  members : List CStr
  deriving DecidableEq

inductive Errno where
  | perm
  | noSys
  | opNotSupp
  | other (code : Nat)
  deriving DecidableEq

abbrev Files := CStr → Except Errno Validation.Stat

structure System where
  users : List Passwd
  groups : List Group
  files : Files

def System.lookup (sys : System) (name : CStr) : Option Passwd :=
  sys.users.find? fun entry => entry.name == name

theorem System.name_of_lookup {sys : System} {name : CStr} {entry : Passwd}
    (h : sys.lookup name = some entry) : entry.name = name := by
  have hname := List.find?_some (p := fun (e : Passwd) => e.name == name) h
  exact eq_of_beq hname

/-- What `getgrouplist` collects: the primary group and those that list the user. -/
def System.groupsOf (sys : System) (name : CStr) (gid : Nat) : List Nat :=
  gid :: (sys.groups.filter fun group => group.members.contains name && group.gid != gid).map
    Group.gid

structure Ids where
  ruid : Nat
  euid : Nat
  suid : Nat
  rgid : Nat
  egid : Nat
  sgid : Nat
  groups : List Nat
  deriving DecidableEq

structure Ruleset where
  handled : Nat
  rules : List CStr
  deriving DecidableEq

/-- The process: its ids, the buffer of `getpwnam`, its descriptors, and the locks
it has put on itself. -/
structure Machine where
  ids : Ids
  pwbuf : Passwd
  fds : List Nat
  noNewPrivs : Bool
  landlock : List Ruleset
  seccomp : Option (List String)
  deriving DecidableEq

/-- `die_msg(msg)` and `die(ctx)`. -/
inductive Death where
  | dieMsg (msg : String)
  | die (ctx : String) (errno : Errno)
  deriving DecidableEq

abbrev Main (α : Type) := Proc Machine Death α

/-- A pointer that `getpwnam` returns: into its one static buffer. -/
inductive PasswdPtr where
  | buffer
  deriving DecidableEq

def deref (_ : PasswdPtr) : Main Passwd := do
  let machine ← get
  pure machine.pwbuf

/-- A lookup that succeeds overwrites the buffer; `found` is false where the library
call fails. -/
def getpwnam (sys : System) (found : Bool) (name : CStr) : Main (Option PasswdPtr) :=
  match if found then sys.lookup name else none with
  | none => pure none
  | some entry => do
      modify fun machine => { machine with pwbuf := entry }
      pure (some .buffer)

end Vnctlsd.Helper
