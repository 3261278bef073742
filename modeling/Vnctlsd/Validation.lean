import Vnctlsd.Python.Value

/-! The check of a socket file.  The file system is what `os.lstat` answers: an
entry, or the text of an `OSError`. -/
namespace Vnctlsd.Validation
open Vnctlsd.Python

structure Stat where
  mode : Nat
  uid : Nat
  deriving DecidableEq

abbrev FileSystem := String → Except String Stat

/-- `os.lstat(path)`; other types than strings and embedded null characters
raise what is no `OSError`. -/
def lstat (fs : FileSystem) (path : PyVal) : Py (Except String Stat) :=
  match path with
  | .str path =>
      if path.toList.contains '\x00' then raise .valueError "lstat: embedded null character in path"
      else .ok (fs path)
  | other =>
      raise .typeError s!"lstat: path should be string, bytes or os.PathLike, not {other.typeName}"

def isSock (mode : Nat) : Bool := mode &&& 0o170000 == 0o140000
def otherWritable (mode : Nat) : Bool := mode &&& 0o002 != 0

def octMode (mode : Nat) : String :=
  "0o" ++ String.ofList (Nat.toDigits 8 (mode &&& 0o7777))

def socketDefect (st : Stat) (trustedUid : Option Int) : Option String :=
  if !isSock st.mode then
    let mode := octMode st.mode
    some s!"not a socket (mode={mode})"
  else
    match trustedUid.filter fun uid => (st.uid : Int) ≠ uid with
    | some uid =>
        let owner := st.uid
        some (s!"owned by uid={owner}, expected uid={uid}. " ++
          "Check that QEMU runs as the correct user.")
    | none =>
        if otherWritable st.mode then
          some ("world-writable socket. " ++
            "Use filesystem ACLs for group access instead.")
        else none

def validateSocket (fs : FileSystem) (path : PyVal) (trustedUid : Option Int) :
    Py (Option String) := do
  match ← lstat fs path with
  | .error text => pure (some s!"lstat failed: {text}")
  | .ok st => pure (socketDefect st trustedUid)

theorem socketDefect_eq_none_iff {st : Stat} {trustedUid : Option Int} :
    socketDefect st trustedUid = none ↔ isSock st.mode = true ∧ otherWritable st.mode = false ∧
      ∀ uid, trustedUid = some uid → (st.uid : Int) = uid := by
  cases hsock : isSock st.mode with
  | false => simp [socketDefect, hsock]
  | true =>
      cases trustedUid with
      | none => cases hwritable : otherWritable st.mode <;> simp [socketDefect, hsock, hwritable]
      | some uid =>
          by_cases howner : (st.uid : Int) = uid
          · cases hwritable : otherWritable st.mode <;>
              simp [socketDefect, hsock, hwritable, howner, Option.filter]
          · simp [socketDefect, hsock, howner, Option.filter]

theorem validateSocket_passed {fs : FileSystem} {path : PyVal} {trustedUid : Option Int}
    (h : validateSocket fs path trustedUid = .ok none) :
    ∃ name st, path = .str name ∧ fs name = .ok st ∧ isSock st.mode = true ∧
      (∀ uid, trustedUid = some uid → (st.uid : Int) = uid) := by
  obtain ⟨found, hlstat, hfound⟩ := bind_eq_ok.mp h
  cases path with
  | str name =>
      unfold lstat at hlstat
      simp only at hlstat
      split at hlstat
      · cases hlstat
      · cases hlstat
        cases hfs : fs name with
        | error text => simp [hfs, pure, Except.pure] at hfound
        | ok st =>
            rw [hfs] at hfound
            obtain ⟨hsock, -, howner⟩ := socketDefect_eq_none_iff.mp (Except.ok.inj hfound)
            exact ⟨name, st, rfl, hfs, hsock, howner⟩
  | none | bool | int | float | list | dict | pattern | date => cases hlstat

def isDir (mode : Nat) : Bool := mode &&& 0o170000 == 0o040000

def dirDefect (rt : Runtime) (watchDir : PyVal) (st : Stat) : Option String :=
  let shown := rt.repr watchDir
  if !isDir st.mode then some s!"{shown} is not a directory"
  else if otherWritable st.mode then
    let mode := octMode st.mode
    let dir := rt.str watchDir
    some (s!"Watch directory {shown} is world-writable (mode={mode}).\n" ++
      "  An attacker could create fake console sockets.\n" ++
      "  Users may unknowingly send credentials to a rogue stream.\n" ++
      s!"  Fix: chmod 0750 {dir} && chown root:_vnctlsd {dir}\n" ++
      "  Refusing to watch this directory.")
  else none

def checkDirPermissions (rt : Runtime) (fs : FileSystem) (watchDir : PyVal) :
    Py (Option String) := do
  let shown := rt.repr watchDir
  match ← lstat fs watchDir with
  | .error text => pure (some s!"Cannot stat watch directory {shown}: {text}")
  | .ok st => pure (dirDefect rt watchDir st)

end Vnctlsd.Validation
