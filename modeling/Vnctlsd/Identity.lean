import Vnctlsd.Bridge.Pam
import Vnctlsd.Helper.FailsClosed
import Vnctlsd.Python.Utf8
import Vnctlsd.Worker.Connections

/-! The way of a user's name through the three programs: the bridge verifies a password
for it, the helper becomes the account of that name, and the worker names the session
after the uid that the kernel reports. -/
namespace Vnctlsd.Identity
open Vnctlsd.Library Vnctlsd.Library.Transition Vnctlsd.Python
open Bridge.Pam Helper Worker.Connections
open Monitor.Replication (Stores)

/-- The arguments that `_spawn_helper` hands to `execv`, which takes no null byte. -/
def execArgs (username : List UInt8) : Option (List Helper.CStr) :=
  if 0 ∈ username then none
  else some [Text.ascii "vnctl-user-pipe", Text.ascii "--user", username]

/-- The first account with the uid is the one that `getpwuid` finds. -/
def accountOf (sys : System) (uid : Nat) : Option Passwd :=
  sys.users.find? fun entry => entry.uid == uid

def getpwuid (sys : System) (uid : Nat) : Option String :=
  (accountOf sys uid).map fun entry => Utf8.decode entry.name

/-- The account database is that of the helper all the time. -/
def SameAccounts (sys : System) (events : List Event) : Prop :=
  ∀ passwd, .accounts passwd ∈ events → passwd = getpwuid sys

theorem cString_eq_self {bytes : List UInt8} (h : 0 ∉ bytes) : cString bytes = bytes := by
  refine List.takeWhile_eq_self_iff.mpr fun b hb => bne_iff_ne.mpr ?_
  rintro rfl
  exact h hb

theorem execArgs_eq_some {username : List UInt8} {argv : List Helper.CStr}
    (h : execArgs username = some argv) : 0 ∉ username ∧
      argv = [Text.ascii "vnctl-user-pipe", Text.ascii "--user", username] := by
  obtain ⟨hnul, hargv⟩ := Option.ite_none_left_eq_some.mp h
  exact ⟨hnul, (Option.some.inj hargv).symm⟩

section
variable {rt : Runtime} {sys : System} {start world next : World} {events : List Event}

theorem passwd_step {event : Event} (hstep : step rt world event = some next)
    (hpasswd : world.passwd = getpwuid sys) (hevent : SameAccounts sys [event]) :
    next.passwd = getpwuid sys := by
  cases steps_of_step hstep with
  | accounts passwd => exact hevent passwd (List.mem_singleton_self _)
  | accepted | dropped | stopped | act | reload | raised | enforced => exact hpasswd

theorem passwd_run (hrun : Run (step rt) start events world)
    (hstart : start.passwd = getpwuid sys) (hsame : SameAccounts sys events) :
    world.passwd = getpwuid sys := by
  induction hrun with
  | nil state => exact hstart
  | cons hstep hrest ih =>
      refine ih (passwd_step hstep hstart fun passwd hmem => ?_) fun passwd hmem =>
        hsame passwd (List.mem_cons_of_mem _ hmem)
      cases List.mem_singleton.mp hmem
      exact hsame passwd (List.mem_cons_self ..)

/-- A session is named after the first account with the uid of its peer. -/
theorem named_after_account {maxThreads : Nat} {stores : Stores} {sid : String}
    {session : SessionRegistry.Session} {conn : Conn}
    (hrun : Run (step rt) (.start maxThreads stores (getpwuid sys)) events world)
    (hsame : SameAccounts sys events)
    (hsession : world.registry.sessions.get? sid = some session)
    (hconn : world.conns.get? sid = some conn) :
    ∃ account, accountOf sys conn.peerUid = some account ∧
      session.username = Utf8.decode account.name := by
  obtain ⟨found, hfound, before, middle, after, atLookup, atCheck, rfl, hbefore, -, -, hname, -⟩ :=
    (traced hrun).sessions sid session hsession
  rw [hconn] at hfound
  cases hfound
  have hstart : (World.start maxThreads stores (getpwuid sys)).passwd = getpwuid sys := rfl
  have hlookup := passwd_run hbefore hstart fun passwd hmem =>
    hsame passwd (List.mem_append_left _ hmem)
  rw [hlookup] at hname
  obtain ⟨account, haccount, hdecode⟩ := Option.map_eq_some_iff.mp hname
  exact ⟨account, haccount, hdecode.symm⟩

end

/-- From the password to the session.  Where PAM has verified the password of the name
that was typed, the helper was started with it and has come as far as `connect()`, and
the worker has a session for that connection, PAM has been asked about exactly this
account, the helper has become it, it is not root, and the session bears the name of the
first account with its uid: the user's own, unless another account shares the uid and
stands before it. -/
theorem session_of_verified {pam : LibPam} {mem : Nat → Alloc} {username : List Char}
    {password service : List UInt8} {sys : System} {o : Outcomes} {argv : List Helper.CStr}
    {start atConnect : Machine} {sockFd : Nat} {rt : Runtime} {maxThreads : Nat}
    {stores : Stores} {events : List Event} {world : World} {sid : String}
    {session : SessionRegistry.Session} {conn : Conn}
    (hverified : (pamVerify pam mem (Utf8.encode username) password service).ok = true)
    (hexec : execArgs (Utf8.encode username) = some argv)
    (hhelper : startUp sys o argv start = .ok (sockFd, atConnect))
    (hrun : Run (step rt) (.start maxThreads stores (getpwuid sys)) events world)
    (hsame : SameAccounts sys events)
    (hsession : world.registry.sessions.get? sid = some session)
    (hconn : world.conns.get? sid = some conn) (hpeer : conn.peerUid = atConnect.ids.euid) :
    ((pam.authenticate (cString service) (Utf8.encode username)).play
        (fun n => convCb (mem n) (Utf8.encode username) (cString password)) 0).result =
          pamSuccess ∧
      ∃ target bridge account, sys.lookup (Utf8.encode username) = some target ∧
        Helper.Identity sys argv start.ids atConnect.ids target bridge ∧ target.uid ≠ 0 ∧
        accountOf sys target.uid = some account ∧ account.uid = target.uid ∧
        session.username = Utf8.decode account.name ∧
        (account = target → session.username = String.ofList username) := by
  obtain ⟨hnul, rfl⟩ := execArgs_eq_some hexec
  constructor
  · have hauth := authenticated_of_ok hverified
    rwa [cString_eq_self hnul] at hauth
  · obtain ⟨target, bridge, identity⟩ :=
      contract_startUp sys o _ start.ids start sockFd atConnect rfl hhelper
    obtain ⟨program, named, hargv, -, hlookup⟩ := identity.named
    obtain ⟨account, haccount, hname⟩ := named_after_account hrun hsame hsession hconn
    rw [hpeer, identity.uids.2.1] at haccount
    cases hargv
    refine ⟨target, bridge, account, hlookup, identity, identity.notRoot, haccount, ?_, hname, ?_⟩
    · exact eq_of_beq (List.find?_some (p := fun (e : Passwd) => e.uid == target.uid) haccount)
    · rintro rfl
      rw [hname, sys.name_of_lookup hlookup, Utf8.decode_encode]

/-- A library that is content with everybody. -/
def content : LibPam := ⟨fun _ _ => pamSuccess, fun _ _ => .done pamSuccess,
  fun _ _ => .done pamSuccess⟩

def bob : Passwd := ⟨Text.ascii "bob", 1000, 1000⟩

/-- Two accounts with one uid, which has the socket, as the helper's check wants it. -/
def shared : System := ⟨[vnctlsd, bob, alice], [], ownedFiles 1000⟩

def bobOnly : Stores := ⟨.ofFields [("users", .ofFields [("bob", .ofFields [])])], .emptyDict⟩

/-- Alice's password has been verified, and the session is Bob's. -/
theorem session_of_verified_shared :
    ∃ world, Run (step .plain) (.start 1 bobOnly (getpwuid shared)) aliceArrives world ∧
      ∃ session, world.registry.sessions.get? "s1" = some session ∧ session.username = "bob" ∧
        ∃ target bridge account atConnect,
          shared.lookup (Utf8.encode "alice".toList) = some target ∧
          Helper.Identity shared forAlice (started 990).ids atConnect target bridge ∧
          target.uid ≠ 0 ∧ accountOf shared target.uid = some account ∧
          account.uid = target.uid ∧ session.username = Utf8.decode account.name := by
  have hrun : ∃ world, Run (step .plain) (.start 1 bobOnly (getpwuid shared)) aliceArrives world ∧
      world.registry.sessions.get? "s1" = some ⟨"bob", "prompt", none, false⟩ ∧
      world.conns.get? "s1" = some ⟨1000, .session "bob"⟩ := ⟨_, run_of_exec rfl, rfl, rfl⟩
  have hhelper : ∃ atConnect, startUp shared noFailure forAlice (started 990) =
      .ok (3, atConnect) ∧ atConnect.ids.euid = 1000 := ⟨_, rfl, rfl⟩
  obtain ⟨world, hrun, hsession, hconn⟩ := hrun
  obtain ⟨atConnect, hhelper, heuid⟩ := hhelper
  have hverified : (pamVerify content (fun _ => ⟨true, fun _ => true⟩)
      (Utf8.encode "alice".toList) [] []).ok = true := by decide
  have hexec : execArgs (Utf8.encode "alice".toList) = some forAlice := by decide
  obtain ⟨-, target, bridge, account, hlookup, identity, hroot, haccount, hsame, hname, -⟩ :=
    session_of_verified hverified hexec hhelper hrun (fun passwd hmem => by
      simp [aliceArrives] at hmem) hsession hconn heuid.symm
  exact ⟨world, hrun, _, hsession, rfl, target, bridge, account, atConnect.ids, hlookup, identity,
    hroot, haccount, hsame, hname⟩

end Vnctlsd.Identity
