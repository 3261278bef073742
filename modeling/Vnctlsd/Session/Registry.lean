import Vnctlsd.Library.Dict
import Vnctlsd.ACLResolver

/-! The session registry and its enforcement pass.  A socket object belongs to
one session only, so its state is kept where the registry files it. -/
namespace Vnctlsd.SessionRegistry
open Vnctlsd.Library Vnctlsd.Python GlobPatterns ConsoleConfigStore UserMapStore ACLResolver

structure Session where
  username : String
  state : String
  console : Option String
  readOnly : Bool
  deriving DecidableEq

structure Sock where
  shut : Bool
  closed : Bool
  deriving DecidableEq

/-- Every session has its socket: the two maps are filled and emptied together. -/
structure Registry where
  sessions : Dict String Session
  socks : Dict String Sock
  aligned : sessions.keys = socks.keys

def Registry.empty : Registry := ⟨.empty, .empty, rfl⟩

def add (reg : Registry) (sid username state : String) (sock : Sock)
    (console : Option String) (readOnly : Bool) : Registry where
  sessions := reg.sessions.set sid ⟨username, state, console, readOnly⟩
  socks := reg.socks.set sid sock
  aligned := by rw [Dict.keys_set, Dict.keys_set, reg.aligned]

/-- `update(sid, **kwargs)`; a session that is gone stays gone. -/
def update (reg : Registry) (sid : String) (f : Session → Session) : Registry where
  sessions := reg.sessions.modify sid f
  socks := reg.socks
  aligned := by rw [Dict.keys_modify, reg.aligned]

def remove (reg : Registry) (sid : String) : Registry where
  sessions := reg.sessions.erase sid
  socks := reg.socks.erase sid
  aligned := by rw [Dict.keys_erase, Dict.keys_erase, reg.aligned]

def removeMany (reg : Registry) (sids : List String) : Registry where
  sessions := reg.sessions.eraseMany sids
  socks := reg.socks.eraseMany sids
  aligned := by rw [Dict.keys_eraseMany, Dict.keys_eraseMany, reg.aligned]

def consoleOf (session : Session) : Option String :=
  if session.state = "console" then session.console.filter (· ≠ "") else none

def socketOf (cfg : PyVal) (consoleName : String) : Py PyVal := do
  (← (← cfg.get "consoles" .emptyDict).get consoleName .emptyDict).get "socket" (.str "")

/-- The pattern search of the enforcement pass: by the socket of a console that
has no definition. -/
def matchSocketOf (cfg : PyVal) (consoleName : String) :
    List PyVal → Py (Option (PyVal × PyVal))
  | [] => .ok none
  | pat :: rest => do
      let sockPath ← socketOf cfg consoleName
      if ← pat.contains "_fnmatch" then
        match ← matchGlobPattern sockPath (← pat.item "_fnmatch") (← pat.item "_regex") with
        | some vars => pure (some (pat, vars))
        | none => matchSocketOf cfg consoleName rest
      else matchSocketOf cfg consoleName rest

def enforcementLookup (cfg : PyVal) (consoleName : String) : Py (Option (PyVal × PyVal)) := do
  let defn ← explicitConsole cfg consoleName
  if !defn.isNone then return some (defn, .emptyDict)
  let pats ← (← cfg.get "console_patterns" .emptyList).iter
  matchSocketOf cfg consoleName pats

inductive Verdict where
  | atPrompt
  | removed
  | revoked
  | granted (level : Level)
  deriving DecidableEq

def Verdict.stale : Verdict → Bool
  | .removed | .revoked => true
  | .atPrompt | .granted _ => false

def check (rt : Runtime) (userMap cfg : PyVal) (session : Session) : Py Verdict :=
  match consoleOf session with
  | none => .ok .atPrompt
  | some consoleName => do
      match ← enforcementLookup cfg consoleName with
      | none => pure .removed
      | some (defn, vars) => do
          match ← resolveAccess rt userMap session.username defn vars with
          | none => pure .revoked
          | some level => pure (.granted level)

theorem check_console {rt : Runtime} {userMap cfg : PyVal} {session : Session}
    {verdict : Verdict} {consoleName : String} (hconsole : consoleOf session = some consoleName)
    (h : check rt userMap cfg session = .ok verdict) :
    (enforcementLookup cfg consoleName = .ok none ∧ verdict = .removed) ∨
      ∃ defn vars level, enforcementLookup cfg consoleName = .ok (some (defn, vars)) ∧
        resolveAccess rt userMap session.username defn vars = .ok level ∧
        verdict = level.elim .revoked .granted := by
  simp only [check, hconsole] at h
  obtain ⟨found, hlookup, h⟩ := bind_eq_ok.mp h
  cases found with
  | none =>
      cases h
      exact .inl ⟨hlookup, rfl⟩
  | some found =>
      obtain ⟨level, haccess, h⟩ := bind_eq_ok.mp h
      refine .inr ⟨found.1, found.2, level, hlookup, haccess, ?_⟩
      cases level <;> cases h <;> rfl

def describe (session : Session) (verdict : Verdict) : String :=
  let consoleName := session.console.getD ""
  match verdict with
  | .atPrompt => s!"{session.username} (at prompt)"
  | .removed => s!"{session.username} → {consoleName} (console removed)"
  | .revoked => s!"{session.username} → {consoleName} (access revoked)"
  | .granted _ => s!"{session.username} → {consoleName}"

structure Scan where
  stale : List String
  killed : List String
  retained : List String

/-- The first loop of `kill_stale`; a check that raises ends it. -/
def scan (rt : Runtime) (userMap cfg : PyVal) : List (String × Session) → Py Scan
  | [] => .ok ⟨[], [], []⟩
  | entry :: rest => do
      let verdict ← check rt userMap cfg entry.2
      let others ← scan rt userMap cfg rest
      let text := describe entry.2 verdict
      pure (if verdict.stale then
        ⟨entry.1 :: others.stale, text :: others.killed, others.retained⟩
      else ⟨others.stale, others.killed, text :: others.retained⟩)

structure SockCalls where
  sendall : Bool
  shutdown : Bool
  close : Bool
  deriving DecidableEq

/-- The notice, the shutdown and the close stand in one `try`: the first that
raises ends all three. -/
def disconnect (calls : SockCalls) (sock : Sock) : Sock :=
  if !calls.sendall then sock
  else if !calls.shutdown then sock
  else ⟨true, sock.closed || calls.close⟩

/-- `dropped` holds the sockets of the killed sessions as they were left. -/
structure Enforcement where
  killed : List String
  retained : List String
  stale : List String
  registry : Registry
  dropped : List (String × Sock)

def killStale (rt : Runtime) (userMap cfg : PyVal) (calls : String → SockCalls)
    (reg : Registry) : Py Enforcement := do
  let found ← scan rt userMap cfg reg.sessions.entries
  pure {
    killed := found.killed
    retained := found.retained
    stale := found.stale
    registry := removeMany reg found.stale
    dropped := found.stale.filterMap fun sid =>
      (reg.socks.get? sid).map fun sock => (sid, disconnect (calls sid) sock) }

theorem disconnect_shut_iff (calls : SockCalls) (sock : Sock) :
    (disconnect calls sock).shut = true ↔
      sock.shut = true ∨ (calls.sendall = true ∧ calls.shutdown = true) := by
  unfold disconnect
  cases calls.sendall <;> cases calls.shutdown <;> simp

theorem scan_cons {rt : Runtime} {userMap cfg : PyVal} {entry : String × Session}
    {rest : List (String × Session)} {found : Scan}
    (h : scan rt userMap cfg (entry :: rest) = .ok found) :
    ∃ verdict others, check rt userMap cfg entry.2 = .ok verdict ∧
      scan rt userMap cfg rest = .ok others ∧
      found.stale = if verdict.stale then entry.1 :: others.stale else others.stale := by
  obtain ⟨verdict, hcheck, h⟩ := bind_eq_ok.mp h
  obtain ⟨others, hrest, h⟩ := bind_eq_ok.mp h
  cases h
  refine ⟨verdict, others, hcheck, hrest, ?_⟩
  split <;> rfl

/-- A scan that ends has checked every session, and calls exactly those stale
whose check says so. -/
theorem scan_spec (rt : Runtime) (userMap cfg : PyVal) {sessions : List (String × Session)}
    {found : Scan} (h : scan rt userMap cfg sessions = .ok found) :
    ∀ sid, sid ∈ found.stale ↔ ∃ session verdict, (sid, session) ∈ sessions ∧
      check rt userMap cfg session = .ok verdict ∧ verdict.stale = true := by
  induction sessions generalizing found with
  | nil =>
      cases h
      simp
  | cons entry rest ih =>
      obtain ⟨verdict, others, hcheck, hrest, hstale⟩ := scan_cons h
      intro sid
      rw [hstale]
      constructor
      · intro hsid
        have hcases : verdict.stale = true ∧ sid = entry.1 ∨ sid ∈ others.stale := by
          split at hsid
          · exact (List.mem_cons.mp hsid).imp_left fun heq => ⟨‹_›, heq⟩
          · exact .inr hsid
        rcases hcases with ⟨hkill, rfl⟩ | hmem
        · exact ⟨entry.2, verdict, List.mem_cons_self .., hcheck, hkill⟩
        · obtain ⟨session, verdict', hmem, hok, hkill⟩ := (ih hrest sid).mp hmem
          exact ⟨session, verdict', List.mem_cons_of_mem _ hmem, hok, hkill⟩
      · rintro ⟨session, verdict', hmem, hok, hkill⟩
        rcases List.mem_cons.mp hmem with rfl | hmem
        · obtain rfl : verdict = verdict' := Except.ok.inj (hcheck.symm.trans hok)
          rw [if_pos hkill]
          exact List.mem_cons_self ..
        · have hother := (ih hrest sid).mpr ⟨session, verdict', hmem, hok, hkill⟩
          split
          · exact List.mem_cons_of_mem _ hother
          · exact hother

theorem scan_checks (rt : Runtime) (userMap cfg : PyVal) {sessions : List (String × Session)}
    {found : Scan} (h : scan rt userMap cfg sessions = .ok found) :
    ∀ entry ∈ sessions, ∃ verdict, check rt userMap cfg entry.2 = .ok verdict := by
  induction sessions generalizing found with
  | nil => simp
  | cons entry rest ih =>
      obtain ⟨verdict, others, hcheck, hrest, -⟩ := scan_cons h
      intro session hmem
      rcases List.mem_cons.mp hmem with rfl | hmem
      · exact ⟨verdict, hcheck⟩
      · exact ih hrest session hmem

theorem killStale_spec {rt : Runtime} {userMap cfg : PyVal} {calls : String → SockCalls}
    {reg : Registry} {result : Enforcement}
    (h : killStale rt userMap cfg calls reg = .ok result) :
    ∃ found, scan rt userMap cfg reg.sessions.entries = .ok found ∧
      result.stale = found.stale ∧
      result.registry = removeMany reg found.stale ∧
      result.dropped = found.stale.filterMap fun sid =>
        (reg.socks.get? sid).map fun sock => (sid, disconnect (calls sid) sock) := by
  obtain ⟨found, hscan, h⟩ := bind_eq_ok.mp h
  cases h
  exact ⟨found, hscan, rfl, rfl, rfl⟩

theorem killStale_stale_iff {rt : Runtime} {userMap cfg : PyVal} {calls : String → SockCalls}
    {reg : Registry} {result : Enforcement}
    (h : killStale rt userMap cfg calls reg = .ok result) {sid : String} {session : Session}
    (hmem : (sid, session) ∈ reg.sessions.entries) :
    ∃ verdict, check rt userMap cfg session = .ok verdict ∧
      (sid ∈ result.stale ↔ verdict.stale = true) := by
  obtain ⟨found, hscan, hstale, -, -⟩ := killStale_spec h
  obtain ⟨verdict, hcheck⟩ := scan_checks rt userMap cfg hscan _ hmem
  refine ⟨verdict, hcheck, ?_⟩
  rw [hstale, scan_spec rt userMap cfg hscan]
  constructor
  · rintro ⟨session', verdict', hmem', hok, hkill⟩
    rw [← Dict.value_unique hmem hmem', hcheck] at hok
    cases hok
    exact hkill
  · intro hkill
    exact ⟨session, verdict, hmem, hcheck, hkill⟩

end Vnctlsd.SessionRegistry
