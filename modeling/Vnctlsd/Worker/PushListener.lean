import Vnctlsd.TrustedUid
import Vnctlsd.Watcher.Announce

/-! The worker's answer to a SOCKET_APPEARED message.  Every field of the
message is whatever the watcher sent; the store, the file system and the user
database are the worker's own. -/
namespace Vnctlsd.Worker.PushListener
open Vnctlsd.Python ConsoleConfigStore Validation TrustedUid Watcher

def workerValidateSocket (rt : Runtime) (passwd : Passwd) (fs : FileSystem)
    (cfg path defn vars : PyVal) : Py (Option String) := do
  let trustedUid ← resolveTrustedUid rt passwd cfg defn vars
  validateSocket fs path trustedUid

abbrev Connect := String → Option Nat

abbrev LiveHubs := Key → Bool

inductive Appeared where
  | rejected (err : String)
  | ignored
  | failed
  | unregistered (path : String) (fd : Nat)
  | existing (path : String) (name : Key)
  | created (path : String) (name : Key) (fd : Nat)
  deriving DecidableEq

def Appeared.connected : Appeared → Option String
  | .rejected _ | .ignored | .failed => none
  | .unregistered path _ | .existing path _ | .created path _ _ => some path

/-- The block `try … except Exception`; a name that cannot be hashed makes
`get_or_create` raise once the socket is connected. -/
def connectHub (connect : Connect) (live : LiveHubs) (path name : PyVal) : Appeared :=
  match path with
  | .str path =>
      match connect path, name.toKey with
      | none, _ => .failed
      | some fd, .error _ => .unregistered path fd
      | some fd, .ok key => if live key then .existing path key else .created path key fd
  | _ => .failed

def socketAppeared (rt : Runtime) (passwd : Passwd) (fs : FileSystem) (connect : Connect)
    (live : LiveHubs) (cfg msg : PyVal) : Py Appeared := do
  let path ← msg.get "path" (.str "")
  let name ← msg.get "console_name" (.str "")
  let defn ← msg.get "defn" .emptyDict
  let vars ← msg.get "vars" .emptyDict
  match ← workerValidateSocket rt passwd fs cfg path defn vars with
  | some err => pure (.rejected err)
  | none => do
      let ctype ← defn.get "type" .none
      pure (if ctype.eqStr "qemu_unix" then connectHub connect live path name else .ignored)

/-- The worker's own configuration has a definition for the path, and its owner
check, which is one, accepts the socket. -/
def OwnTrust (rt : Runtime) (passwd : Passwd) (fs : FileSystem) (cfg : PyVal)
    (path : String) : Prop :=
  ∃ defn vars ctype st uid, matchSocket cfg (.str path) = .ok (some (defn, vars)) ∧
    defn.get "type" .none = .ok ctype ∧ ctype.eqStr "qemu_unix" = true ∧
    fs path = .ok st ∧ resolveTrustedUid rt passwd cfg defn vars = .ok (some uid) ∧
    (st.uid : Int) = uid

def OwnName (rt : Runtime) (cfg : PyVal) (path : String) (name : Key) : Prop :=
  ∃ defn vars text, matchSocket cfg (.str path) = .ok (some (defn, vars)) ∧
    consoleName rt defn vars = .ok text ∧ name = .str text

structure Safe (rt : Runtime) (passwd : Passwd) (fs : FileSystem) (cfg : PyVal)
    (outcome : Appeared) : Prop where
  trusted : ∀ path, outcome.connected = some path → OwnTrust rt passwd fs cfg path
  named : ∀ path name fd, outcome = .created path name fd → OwnName rt cfg path name

/-- The setting in force asks for no other owner: it is blank, names nobody, or
names the owner. -/
def AsksNoOther (rt : Runtime) (passwd : Passwd) (cfg defn vars : PyVal) (owner : Nat) : Prop :=
  Unresolvable rt passwd cfg defn vars ∨
    ∃ name, ExpandsTo rt cfg defn vars name ∧ '\x00' ∉ name.toList ∧
      uidOf passwd name = some (owner : Int)

/-- A path that is a socket, which nobody else may write to and which takes
connections, in a message whose own fields ask for no other owner. -/
structure Offered (rt : Runtime) (passwd : Passwd) (fs : FileSystem) (connect : Connect)
    (cfg msg : PyVal) (path : String) (st : Stat) (name : PyVal) : Prop where
  hasPath : msg.get "path" (.str "") = .ok (.str path)
  hasName : msg.get "console_name" (.str "") = .ok name
  noNul : '\x00' ∉ path.toList
  found : fs path = .ok st
  sock : isSock st.mode = true
  closed : otherWritable st.mode = false
  connects : ∃ fd, connect path = some fd
  fields : ∃ defn vars ctype, msg.get "defn" .emptyDict = .ok defn ∧
    msg.get "vars" .emptyDict = .ok vars ∧ AsksNoOther rt passwd cfg defn vars st.uid ∧
    defn.get "type" .none = .ok ctype ∧ ctype.eqStr "qemu_unix" = true

/-- What the worker's own configuration has against a socket, in the order of its
lookups. -/
inductive Foreign (rt : Runtime) (passwd : Passwd) (cfg : PyVal) (path : String) (owner : Nat) :
    Prop where
  | unknown : (∀ defn vars, matchSocket cfg (.str path) ≠ .ok (some (defn, vars))) →
      Foreign rt passwd cfg path owner
  | otherType (defn vars : PyVal) : matchSocket cfg (.str path) = .ok (some (defn, vars)) →
      (∀ ctype, defn.get "type" .none = .ok ctype → ctype.eqStr "qemu_unix" = false) →
      Foreign rt passwd cfg path owner
  | noOwner (defn vars : PyVal) : matchSocket cfg (.str path) = .ok (some (defn, vars)) →
      (∀ uid, resolveTrustedUid rt passwd cfg defn vars ≠ .ok (some uid)) →
      Foreign rt passwd cfg path owner
  | otherOwner (defn vars : PyVal) (uid : Int) :
      matchSocket cfg (.str path) = .ok (some (defn, vars)) →
      resolveTrustedUid rt passwd cfg defn vars = .ok (some uid) → (owner : Int) ≠ uid →
      Foreign rt passwd cfg path owner

/-- The message would file a new hub under a name that is not the console's. -/
def Misnamed (rt : Runtime) (live : LiveHubs) (cfg : PyVal) (path : String) (name : PyVal) :
    Prop :=
  ∃ key, name.toKey = .ok key ∧ live key = false ∧ ∀ defn vars text,
    matchSocket cfg (.str path) = .ok (some (defn, vars)) →
    consoleName rt defn vars = .ok text → key ≠ .str text

def Forged (rt : Runtime) (passwd : Passwd) (fs : FileSystem) (connect : Connect)
    (live : LiveHubs) (cfg msg : PyVal) : Prop :=
  ∃ path st name, Offered rt passwd fs connect cfg msg path st name ∧
    (Foreign rt passwd cfg path st.uid ∨ Misnamed rt live cfg path name)

theorem asksNoOther_iff {rt : Runtime} {passwd : Passwd} {cfg defn vars : PyVal} {owner : Nat} :
    AsksNoOther rt passwd cfg defn vars owner ↔
      ∃ trustedUid, resolveTrustedUid rt passwd cfg defn vars = .ok trustedUid ∧
        ∀ uid, trustedUid = some uid → (owner : Int) = uid := by
  constructor
  · rintro (hblank | ⟨name, hname, hnul, huid⟩)
    · exact ⟨none, resolveTrustedUid_eq_none_iff.mpr hblank, nofun⟩
    · refine ⟨_, resolveTrustedUid_eq_ok_iff.mpr (.inr ⟨name, hname, hnul, rfl⟩), ?_⟩
      intro uid hsome
      exact Option.some.inj (huid.symm.trans hsome)
  · rintro ⟨trustedUid, hresolve, howner⟩
    cases trustedUid with
    | none => exact .inl (resolveTrustedUid_eq_none_iff.mp hresolve)
    | some uid =>
        rcases resolveTrustedUid_eq_ok_iff.mp hresolve with ⟨-, hnone⟩ | ⟨name, hname, hnul, huid⟩
        · cases hnone
        · exact .inr ⟨name, hname, hnul, by rw [← huid, howner uid rfl]⟩

theorem workerValidateSocket_passes_iff {rt : Runtime} {passwd : Passwd} {fs : FileSystem}
    {cfg defn vars : PyVal} {path : String} :
    workerValidateSocket rt passwd fs cfg (.str path) defn vars = .ok none ↔
      '\x00' ∉ path.toList ∧ ∃ st, fs path = .ok st ∧ isSock st.mode = true ∧
        otherWritable st.mode = false ∧ AsksNoOther rt passwd cfg defn vars st.uid := by
  constructor
  · intro h
    obtain ⟨trustedUid, hresolve, h⟩ := bind_eq_ok.mp h
    obtain ⟨found, hlstat, hfound⟩ := bind_eq_ok.mp h
    have hnul : '\x00' ∉ path.toList := by
      intro hnul
      simp [lstat, hnul, raise] at hlstat
    refine ⟨hnul, ?_⟩
    obtain rfl : fs path = found := by simpa [lstat, hnul] using hlstat
    cases hfs : fs path with
    | error text => simp [hfs, pure, Except.pure] at hfound
    | ok st =>
        rw [hfs] at hfound
        obtain ⟨hsock, hclosed, howner⟩ := socketDefect_eq_none_iff.mp (Except.ok.inj hfound)
        exact ⟨st, rfl, hsock, hclosed, asksNoOther_iff.mpr ⟨trustedUid, hresolve, howner⟩⟩
  · rintro ⟨hnul, st, hfs, hsock, hclosed, howner⟩
    obtain ⟨trustedUid, hresolve, howner⟩ := asksNoOther_iff.mp howner
    have hdefect := socketDefect_eq_none_iff.mpr ⟨hsock, hclosed, howner⟩
    simp [workerValidateSocket, hresolve, validateSocket, lstat, hnul, hfs, hdefect, bind,
      Except.bind, pure, Except.pure]

theorem foreign_iff {rt : Runtime} {passwd : Passwd} {fs : FileSystem} {cfg : PyVal}
    {path : String} {st : Stat} (hfs : fs path = .ok st) :
    Foreign rt passwd cfg path st.uid ↔ ¬ OwnTrust rt passwd fs cfg path := by
  constructor
  · rintro hforeign ⟨defn, vars, ctype, st', uid, hmatch, htype, hqemu, hfs', huid, howner⟩
    obtain rfl := Except.ok.inj (hfs.symm.trans hfs')
    cases hforeign with
    | unknown hnone => exact hnone defn vars hmatch
    | otherType defn' vars' hmatch' hother =>
        cases hmatch.symm.trans hmatch'
        rw [hother ctype htype] at hqemu
        cases hqemu
    | noOwner defn' vars' hmatch' hnone =>
        cases hmatch.symm.trans hmatch'
        exact hnone uid huid
    | otherOwner defn' vars' uid' hmatch' huid' hother =>
        cases hmatch.symm.trans hmatch'
        cases huid.symm.trans huid'
        exact hother howner
  · intro h
    by_cases hmatch : ∃ defn vars, matchSocket cfg (.str path) = .ok (some (defn, vars))
    · obtain ⟨defn, vars, hmatch⟩ := hmatch
      by_cases htype : ∃ ctype, defn.get "type" .none = .ok ctype ∧ ctype.eqStr "qemu_unix" = true
      · obtain ⟨ctype, htype, hqemu⟩ := htype
        by_cases howner : ∃ uid, resolveTrustedUid rt passwd cfg defn vars = .ok (some uid)
        · obtain ⟨uid, huid⟩ := howner
          refine .otherOwner defn vars uid hmatch huid fun howner => ?_
          exact h ⟨defn, vars, ctype, st, uid, hmatch, htype, hqemu, hfs, huid, howner⟩
        · exact .noOwner defn vars hmatch fun uid huid => howner ⟨uid, huid⟩
      · refine .otherType defn vars hmatch fun ctype hctype => ?_
        exact Bool.eq_false_iff.mpr fun hqemu => htype ⟨ctype, hctype, hqemu⟩
    · exact .unknown fun defn vars hfound => hmatch ⟨defn, vars, hfound⟩

theorem misnamed_iff {rt : Runtime} {live : LiveHubs} {cfg name : PyVal} {path : String} :
    Misnamed rt live cfg path name ↔
      ∃ key, name.toKey = .ok key ∧ live key = false ∧ ¬ OwnName rt cfg path key := by
  refine exists_congr fun key => and_congr_right fun _ => and_congr_right fun _ => ?_
  constructor
  · rintro hother ⟨defn, vars, text, hmatch, hname, rfl⟩
    exact hother defn vars text hmatch hname rfl
  · intro hnone defn vars text hmatch hname hkey
    exact hnone ⟨defn, vars, text, hmatch, hname, hkey⟩

theorem connectHub_connected {connect : Connect} {live : LiveHubs} {path name : PyVal}
    {target : String} (h : (connectHub connect live path name).connected = some target) :
    path = .str target ∧ ∃ fd, connect target = some fd := by
  cases path with
  | str path =>
      simp only [connectHub] at h
      split at h
      · cases h
      · cases h
        exact ⟨rfl, _, ‹_›⟩
      · split at h <;> cases h <;> exact ⟨rfl, _, ‹_›⟩
  | none | bool | int | float | list | dict | pattern | date => cases h

theorem connectHub_created {connect : Connect} {live : LiveHubs} {path name : PyVal}
    {target : String} {key : Key} {fd : Nat}
    (h : connectHub connect live path name = .created target key fd) :
    path = .str target ∧ connect target = some fd ∧ name.toKey = .ok key ∧ live key = false := by
  cases path with
  | str path =>
      simp only [connectHub] at h
      split at h
      · cases h
      · cases h
      · split at h
        · cases h
        · cases h
          exact ⟨rfl, ‹_›, ‹_›, Bool.eq_false_iff.mpr ‹_›⟩
  | none | bool | int | float | list | dict | pattern | date => cases h

theorem connectHub_of_connects {connect : Connect} {path : String} {fd : Nat}
    (live : LiveHubs) (name : PyVal) (hconnect : connect path = some fd) :
    (connectHub connect live (.str path) name).connected = some path := by
  simp only [connectHub, hconnect]
  cases name.toKey with
  | error e => rfl
  | ok key => cases hlive : live key <;> simp [hlive, Appeared.connected]

theorem connectHub_of_idle {connect : Connect} {live : LiveHubs} {path : String} {fd : Nat}
    {name : PyVal} {key : Key} (hconnect : connect path = some fd)
    (hkey : name.toKey = .ok key) (hlive : live key = false) :
    connectHub connect live (.str path) name = .created path key fd := by
  simp [connectHub, hconnect, hkey, hlive]

theorem socketAppeared_connected {rt : Runtime} {passwd : Passwd} {fs : FileSystem}
    {connect : Connect} {live : LiveHubs} {cfg msg : PyVal} {outcome : Appeared} {path : String}
    (h : socketAppeared rt passwd fs connect live cfg msg = .ok outcome)
    (hconnected : outcome.connected = some path) :
    ∃ st name, Offered rt passwd fs connect cfg msg path st name ∧
      outcome = connectHub connect live (.str path) name := by
  obtain ⟨target, hpath, h⟩ := bind_eq_ok.mp h
  obtain ⟨name, hname, h⟩ := bind_eq_ok.mp h
  obtain ⟨defn, hdefn, h⟩ := bind_eq_ok.mp h
  obtain ⟨vars, hvars, h⟩ := bind_eq_ok.mp h
  obtain ⟨verdict, hvalid, h⟩ := bind_eq_ok.mp h
  cases verdict with
  | some err =>
      cases h
      cases hconnected
  | none =>
      obtain ⟨ctype, htype, h⟩ := bind_eq_ok.mp h
      cases hqemu : ctype.eqStr "qemu_unix" with
      | false =>
          rw [hqemu] at h
          cases h
          cases hconnected
      | true =>
          rw [hqemu, if_pos rfl] at h
          cases h
          obtain ⟨rfl, fd, hconnect⟩ := connectHub_connected hconnected
          obtain ⟨hnul, st, hfs, hsock, hclosed, howner⟩ :=
            workerValidateSocket_passes_iff.mp hvalid
          exact ⟨st, name, ⟨hpath, hname, hnul, hfs, hsock, hclosed, ⟨fd, hconnect⟩,
            ⟨defn, vars, ctype, hdefn, hvars, howner, htype, hqemu⟩⟩, rfl⟩

theorem socketAppeared_of_offered {rt : Runtime} {passwd : Passwd} {fs : FileSystem}
    {connect : Connect} {cfg msg name : PyVal} {path : String} {st : Stat}
    (live : LiveHubs) (h : Offered rt passwd fs connect cfg msg path st name) :
    socketAppeared rt passwd fs connect live cfg msg =
      .ok (connectHub connect live (.str path) name) := by
  obtain ⟨defn, vars, ctype, hdefn, hvars, howner, htype, hqemu⟩ := h.fields
  have hvalid := workerValidateSocket_passes_iff.mpr
    ⟨h.noNul, st, h.found, h.sock, h.closed, howner⟩
  simp [socketAppeared, h.hasPath, h.hasName, hdefn, hvars, hvalid, htype, hqemu, bind, Except.bind,
    pure, Except.pure]

/-- The worker trusts only what its own configuration trusts exactly when the
message is not forged: no socket that the message's own fields let through is
foreign to that configuration, or would be filed under a name of the message's. -/
theorem socketAppeared_safe_iff (rt : Runtime) (passwd : Passwd) (fs : FileSystem)
    (connect : Connect) (live : LiveHubs) (cfg msg : PyVal) :
    (∀ outcome, socketAppeared rt passwd fs connect live cfg msg = .ok outcome →
        Safe rt passwd fs cfg outcome) ↔
      ¬ Forged rt passwd fs connect live cfg msg := by
  constructor
  · rintro h ⟨path, st, name, hoffered, hforged⟩
    have hsafe := h _ (socketAppeared_of_offered live hoffered)
    obtain ⟨fd, hconnect⟩ := hoffered.connects
    rcases hforged with hforeign | hmisnamed
    · exact (foreign_iff hoffered.found).mp hforeign
        (hsafe.trusted path (connectHub_of_connects live name hconnect))
    · obtain ⟨key, hkey, hlive, hother⟩ := misnamed_iff.mp hmisnamed
      exact hother (hsafe.named path key fd (connectHub_of_idle hconnect hkey hlive))
  · intro h outcome houtcome
    constructor
    · intro path hconnected
      obtain ⟨st, name, hoffered, -⟩ := socketAppeared_connected houtcome hconnected
      by_contra htrust
      exact h ⟨path, st, name, hoffered, .inl ((foreign_iff hoffered.found).mpr htrust)⟩
    · rintro path key fd rfl
      obtain ⟨st, name, hoffered, hhub⟩ := socketAppeared_connected houtcome rfl
      obtain ⟨-, -, hkey, hlive⟩ := connectHub_created hhub.symm
      by_contra hname
      exact h ⟨path, st, name, hoffered, .inr (misnamed_iff.mpr ⟨key, hkey, hlive, hname⟩)⟩

/-- A watcher that is not compromised and has the same configuration is safe
to listen to, where every definition's owner setting stands for a user id. -/
theorem announced_not_forged {rt : Runtime} {passwd : Passwd} {fs : FileSystem}
    {cfg path msg : PyVal} (h : handleAppeared rt passwd fs cfg path = .ok (some msg))
    (howned : ∀ defn vars, matchSocket cfg path = .ok (some (defn, vars)) →
      ∃ uid, resolveTrustedUid rt passwd cfg defn vars = .ok (some uid))
    (connect : Connect) (live : LiveHubs) : ¬ Forged rt passwd fs connect live cfg msg := by
  obtain ⟨entries, published, vars, text, announced⟩ := handleAppeared_spec h
  obtain ⟨trustedUid, htrusted, hvalid⟩ := announced.valid
  obtain ⟨target, st, rfl, hfs, -, howner⟩ := validateSocket_passed hvalid
  obtain rfl := announced.message
  obtain ⟨uid, huid⟩ := howned _ _ announced.found
  rintro ⟨name, st', consoleText, hoffered, hforged⟩
  obtain ⟨defn, vars', ctype, hdefn, -, -, htype, hqemu⟩ := hoffered.fields
  obtain rfl : name = target := PyVal.str.inj (Except.ok.inj hoffered.hasPath.symm)
  obtain rfl : consoleText = .str text := Except.ok.inj hoffered.hasName.symm
  obtain rfl : defn = .dict published := Except.ok.inj hdefn.symm
  rw [PyVal.get_dict, lookup_publicEntries (by decide) announced.stripped] at htype
  rcases hforged with hforeign | hmisnamed
  · have huids : trustedUid = some uid := Except.ok.inj (htrusted.symm.trans huid)
    exact (foreign_iff hoffered.found).mp hforeign
      ⟨.dict entries, vars, ctype, st, uid, announced.found, htype, hqemu, hfs, huid,
        howner uid huids⟩
  · obtain ⟨key, hkey, -, hother⟩ := misnamed_iff.mp hmisnamed
    exact hother ⟨.dict entries, vars, text, announced.found, announced.named,
      (Except.ok.inj hkey).symm⟩

def qemuConsoles : PyVal := .ofFields [
  ("socket_validation", .ofFields [("trusted_uid", .str "qemu")]),
  ("consoles", .ofFields [("lab01", .ofFields [
    ("type", .str "qemu_unix"), ("socket", .str "/run/vnctlsd/lab01.sock")])])]

def forged : PyVal := .ofFields [("type", .str "SOCKET_APPEARED"),
  ("path", .str "/tmp/evil.sock"), ("console_name", .str "lab01"),
  ("defn", .ofFields [("type", .str "qemu_unix"),
    ("validation", .ofFields [("trusted_uid", .str "")])])]

def qemuPasswd : Passwd := fun name => if name = "qemu" then some 107 else none

def evilSockets : FileSystem := fun path =>
  if path = "/tmp/evil.sock" then .ok ⟨0o140755, 1000⟩ else .error "[Errno 2] No such file"

/-- The worker connects to the socket and files it under a console of its own
configuration, which has no such socket. -/
theorem socketAppeared_trusts_forged :
    socketAppeared .plain qemuPasswd evilSockets (fun _ => some 5) (fun _ => false)
        qemuConsoles forged = .ok (.created "/tmp/evil.sock" (.str "lab01") 5) ∧
      ¬ Safe .plain qemuPasswd evilSockets qemuConsoles
        (.created "/tmp/evil.sock" (.str "lab01") 5) := by
  refine ⟨by decide, fun h => ?_⟩
  obtain ⟨defn, vars, ctype, st, uid, hmatch, -⟩ := h.trusted "/tmp/evil.sock" rfl
  have hunknown : matchSocket qemuConsoles (.str "/tmp/evil.sock") = .ok none := rfl
  rw [hunknown] at hmatch
  cases hmatch

end Vnctlsd.Worker.PushListener
