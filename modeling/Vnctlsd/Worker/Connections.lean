import Vnctlsd.Library.Tally
import Vnctlsd.Library.Transition
import Vnctlsd.Monitor.Replication
import Vnctlsd.Session.Registry

/-! The worker's accept loop and the threads it hands its connections to: who is
let in, under which name, and what a thread leaves behind. -/
namespace Vnctlsd.Worker.Connections
open Vnctlsd.Library Vnctlsd.Library.Transition Vnctlsd.Python
open ConsoleConfigStore UserMapStore SessionRegistry
open Monitor.Replication (Stores)

/-- Where `handle_trusted_client` stands.  `leaving` and `closing` are its `finally`,
`releasing` is that of `dispatch`. -/
inductive Stage where
  | identifying
  | resolving (uid : Nat)
  | checking (username : String)
  | admitted (username : String)
  | session (username : String)
  | leaving
  | closing
  | releasing
  | ended
  deriving DecidableEq

/-- A connection by its `sid`, with the uid that the kernel noted when it was made. -/
structure Conn where
  peerUid : Nat
  stage : Stage
  deriving DecidableEq

/-- What becomes of `lookup_uid`: the monitor's answer comes, a `RuntimeError` is
taken for no name, anything else is raised. -/
inductive Lookup where
  | answered
  | runtimeError
  | raised

/-- The calls of `registry.update` in a session. -/
inductive Update where
  | announce (cname : String) (readOnly : Bool)
  | confirm
  | back

def Update.apply : Update → Session → Session
  | .announce cname readOnly, session =>
      { session with state := "console", console := some cname, readOnly }
  | .confirm, session => { session with state := "console" }
  | .back, session => { session with state := "prompt", console := none }

/-- `leave` is a `return` or an exception on the way, `end` of the session included. -/
inductive Act where
  | peercred
  | lookup (outcome : Lookup)
  | check
  | register
  | update (change : Update)
  | leave
  | remove
  | close
  | release

inductive Event where
  | accept (sid : String) (peerUid : Nat)
  | startFails
  | acceptFails
  | act (sid : String) (act : Act)
  | reload (stores : Stores)
  | accounts (passwd : Nat → Option String)
  | killStale (calls : String → SockCalls)

/-- `killed` lists the sessions that an enforcement pass has struck off, `passwd` is
the account database that the monitor asks. -/
structure World where
  accepting : Bool
  permits : Nat
  conns : Dict String Conn
  registry : Registry
  stores : Stores
  passwd : Nat → Option String
  killed : List String

def World.start (maxThreads : Nat) (stores : Stores) (passwd : Nat → Option String) : World :=
  ⟨true, maxThreads, .empty, .empty, stores, passwd, []⟩

/-- The stage after a call of `handle_trusted_client`; `none` where it is not the call
that comes next. -/
def nextStage (world : World) (conn : Conn) : Act → Option Stage
  | .peercred =>
      match conn.stage with
      | .identifying => some (.resolving conn.peerUid)
      | _ => none
  | .lookup outcome =>
      match conn.stage, outcome with
      | .resolving uid, .answered => some ((world.passwd uid).elim .leaving .checking)
      | .resolving _, .runtimeError | .resolving _, .raised => some .leaving
      | _, _ => none
  | .check =>
      match conn.stage with
      | .checking username =>
          match userExists world.stores.userMap username with
          | .ok true => some (.admitted username)
          | .ok false | .error _ => some .leaving
      | _ => none
  | .register =>
      match conn.stage with
      | .admitted username => some (.session username)
      | _ => none
  | .update _ =>
      match conn.stage with
      | .session username => some (.session username)
      | _ => none
  | .leave =>
      match conn.stage with
      | .identifying | .resolving _ | .checking _ | .admitted _ | .session _ => some .leaving
      | _ => none
  | .remove =>
      match conn.stage with
      | .leaving => some .closing
      | _ => none
  | .close =>
      match conn.stage with
      | .closing => some .releasing
      | _ => none
  | .release =>
      match conn.stage with
      | .releasing => some .ended
      | _ => none

/-- What a call does to the registry, where the thread stands at `stage`. -/
def onRegistry (reg : Registry) (sid : String) (stage : Stage) : Act → Registry
  | .register =>
      match stage with
      | .admitted username => add reg sid username "prompt" ⟨false, false⟩ none false
      | _ => reg
  | .update change => update reg sid change.apply
  | .remove => remove reg sid
  | _ => reg

def onPermits (permits : Nat) : Act → Nat
  | .release => permits + 1
  | _ => permits

/-- At capacity the connection is dropped at once.  `Thread.start` is outside of the
`try`, and an `OSError` ends the loop. -/
def step (rt : Runtime) (world : World) (event : Event) : Option World :=
  if !world.accepting then none
  else match event with
  | .accept sid peerUid =>
      match world.conns.get? sid, world.permits with
      | some _, _ => none
      | none, 0 => some world
      | none, permits + 1 => some { world with
          permits, conns := world.conns.set sid ⟨peerUid, .identifying⟩ }
  | .startFails | .acceptFails => some { world with accepting := false }
  | .act sid act => do
      let conn ← world.conns.get? sid
      let stage ← nextStage world conn act
      some { world with
        permits := onPermits world.permits act
        conns := world.conns.set sid { conn with stage }
        registry := onRegistry world.registry sid conn.stage act }
  | .reload stores => some { world with stores }
  | .accounts passwd => some { world with passwd }
  | .killStale calls =>
      match SessionRegistry.killStale rt world.stores.userMap world.stores.cfg calls
          world.registry with
      | .error _ => some world
      | .ok result => some { world with
          registry := result.registry, killed := world.killed ++ result.stale }

/-- What a call starts from and where it leads. -/
inductive Moves (world : World) (conn : Conn) : Act → Stage → Prop where
  | peercred : conn.stage = .identifying → Moves world conn .peercred (.resolving conn.peerUid)
  | named {uid : Nat} {username : String} : conn.stage = .resolving uid →
      world.passwd uid = some username → Moves world conn (.lookup .answered) (.checking username)
  | unnamed {uid : Nat} {outcome : Lookup} : conn.stage = .resolving uid →
      Moves world conn (.lookup outcome) .leaving
  | known {username : String} : conn.stage = .checking username →
      userExists world.stores.userMap username = .ok true →
      Moves world conn .check (.admitted username)
  | unknown {username : String} : conn.stage = .checking username →
      Moves world conn .check .leaving
  | register {username : String} : conn.stage = .admitted username →
      Moves world conn .register (.session username)
  | update {username : String} {change : Update} : conn.stage = .session username →
      Moves world conn (.update change) (.session username)
  | leave : conn.stage ≠ .ended → conn.stage ≠ .closing → conn.stage ≠ .releasing →
      Moves world conn .leave .leaving
  | remove : conn.stage = .leaving → Moves world conn .remove .closing
  | close : conn.stage = .closing → Moves world conn .close .releasing
  | release : conn.stage = .releasing → Moves world conn .release .ended

theorem moves_of_nextStage {world : World} {conn : Conn} {act : Act} {stage : Stage}
    (h : nextStage world conn act = some stage) : Moves world conn act stage := by
  cases act with
  | peercred =>
      simp only [nextStage] at h
      split at h <;> cases h
      exact .peercred ‹_›
  | lookup outcome =>
      simp only [nextStage] at h
      split at h
      · rename_i uid hstage
        cases hpasswd : world.passwd uid with
        | none =>
            rw [hpasswd] at h
            cases h
            exact .unnamed hstage
        | some username =>
            rw [hpasswd] at h
            cases h
            exact .named hstage hpasswd
      · cases h
        exact .unnamed ‹_›
      · cases h
        exact .unnamed ‹_›
      · cases h
  | check =>
      simp only [nextStage] at h
      split at h
      · split at h <;> cases h
        · exact .known ‹_› ‹_›
        · exact .unknown ‹_›
        · exact .unknown ‹_›
      · cases h
  | register =>
      simp only [nextStage] at h
      split at h <;> cases h
      exact .register ‹_›
  | update change =>
      simp only [nextStage] at h
      split at h <;> cases h
      exact .update ‹_›
  | leave =>
      simp only [nextStage] at h
      split at h <;> cases h
      all_goals
        rename_i hstage
        exact .leave (hstage ▸ nofun) (hstage ▸ nofun) (hstage ▸ nofun)
  | remove =>
      simp only [nextStage] at h
      split at h <;> cases h
      exact .remove ‹_›
  | close =>
      simp only [nextStage] at h
      split at h <;> cases h
      exact .close ‹_›
  | release =>
      simp only [nextStage] at h
      split at h <;> cases h
      exact .release ‹_›

/-- What a step of the worker does. -/
inductive Steps (rt : Runtime) (world : World) : Event → World → Prop where
  | accepted {sid : String} {peerUid permits : Nat} : world.conns.get? sid = none →
      world.permits = permits + 1 → Steps rt world (.accept sid peerUid) { world with
        permits, conns := world.conns.set sid ⟨peerUid, .identifying⟩ }
  | dropped {sid : String} {peerUid : Nat} : Steps rt world (.accept sid peerUid) world
  | stopped {event : Event} : Steps rt world event { world with accepting := false }
  | act {sid : String} {act : Act} {conn : Conn} {stage : Stage} :
      world.conns.get? sid = some conn → Moves world conn act stage →
      Steps rt world (.act sid act) { world with
        permits := onPermits world.permits act
        conns := world.conns.set sid { conn with stage }
        registry := onRegistry world.registry sid conn.stage act }
  | reload (stores : Stores) : Steps rt world (.reload stores) { world with stores }
  | accounts (passwd : Nat → Option String) :
      Steps rt world (.accounts passwd) { world with passwd }
  | raised {calls : String → SockCalls} : Steps rt world (.killStale calls) world
  | enforced {calls : String → SockCalls} {result : Enforcement} :
      SessionRegistry.killStale rt world.stores.userMap world.stores.cfg calls world.registry =
        .ok result → Steps rt world (.killStale calls) { world with
          registry := result.registry, killed := world.killed ++ result.stale }

theorem steps_of_step {rt : Runtime} {world next : World} {event : Event}
    (h : step rt world event = some next) : Steps rt world event next := by
  simp only [step] at h
  split at h
  · cases h
  · cases event with
    | accept sid peerUid =>
        dsimp only at h
        split at h
        · cases h
        · cases h
          exact .dropped
        · cases h
          exact .accepted ‹_› ‹_›
    | startFails | acceptFails =>
        cases h
        exact .stopped
    | act sid act =>
        obtain ⟨conn, hconn, h⟩ := Option.bind_eq_some_iff.mp h
        obtain ⟨stage, hstage, h⟩ := Option.bind_eq_some_iff.mp h
        cases h
        exact .act hconn (moves_of_nextStage hstage)
    | reload stores =>
        cases h
        exact .reload stores
    | accounts passwd =>
        cases h
        exact .accounts passwd
    | killStale calls =>
        dsimp only at h
        split at h
        · cases h
          exact .raised
        · cases h
          exact .enforced ‹_›

/-! What a connection has to do with the registry. -/

/-- While a thread stands there the registry may have its session. -/
def Stage.Keeps (username : String) (stage : Stage) : Prop :=
  stage = .session username ∨ stage = .leaving

def Stage.running (stage : Stage) : Bool := stage != .ended

/-- The thread has been through `registry.add`, or never will. -/
def Stage.passed : Stage → Bool
  | .identifying | .resolving _ | .checking _ | .admitted _ => false
  | .session _ | .leaving | .closing | .releasing | .ended => true

structure Accounted (maxThreads : Nat) (world : World) : Prop where
  permits : world.permits + world.conns.tally (fun conn => conn.stage.running) = maxThreads
  kept : ∀ sid session, world.registry.sessions.get? sid = some session →
    ∃ conn, world.conns.get? sid = some conn ∧ conn.stage.Keeps session.username
  killed : ∀ sid ∈ world.killed, world.registry.sessions.get? sid = none ∧
    ∃ conn, world.conns.get? sid = some conn ∧ conn.stage.passed = true
  registered : ∀ sid conn username, world.conns.get? sid = some conn →
    conn.stage = .session username → sid ∉ world.killed →
    ∃ session, world.registry.sessions.get? sid = some session

variable {rt : Runtime} {maxThreads : Nat} {world next : World} {conn : Conn} {act : Act}
  {stage : Stage} {sid other : String}

theorem Moves.running (h : Moves world conn act stage) : conn.stage.running = true := by
  cases h with
  | leave hended _ _ => exact bne_iff_ne.mpr hended
  | peercred hstage | named hstage _ | unnamed hstage | known hstage _ | unknown hstage
  | register hstage | update hstage | remove hstage | close hstage | release hstage =>
      rw [hstage]
      rfl

/-- A permit comes back where a thread ends. -/
theorem Moves.permits (h : Moves world conn act stage) (permits : Nat) :
    onPermits permits act + (if stage.running then 1 else 0) = permits + 1 := by
  cases h <;> rfl

theorem Moves.passed (h : Moves world conn act stage) (hpassed : conn.stage.passed = true) :
    stage.passed = true := by
  cases h with
  | peercred hstage | named hstage _ | known hstage _ | register hstage =>
      rw [hstage] at hpassed
      cases hpassed
  | unnamed _ | unknown _ | update _ | leave _ _ _ | remove _ | close _ | release _ => rfl

theorem get?_onRegistry_other (reg : Registry) (hne : other ≠ sid) :
    (onRegistry reg sid stage act).sessions.get? other = reg.sessions.get? other := by
  cases act with
  | register =>
      cases stage with
      | admitted username => exact (Dict.get?_set _ _ _ _).trans (if_neg hne)
      | _ => rfl
  | update change => exact (Dict.get?_modify _ _ _ _).trans (if_neg hne)
  | remove => exact (Dict.get?_erase _ _ _).trans (if_neg hne)
  | _ => rfl

theorem get?_register (reg : Registry) (username : String) :
    (onRegistry reg sid (.admitted username) .register).sessions.get? sid =
      some ⟨username, "prompt", none, false⟩ :=
  (Dict.get?_set _ _ _ _).trans (if_pos rfl)

theorem get?_update (reg : Registry) (change : Update) :
    (onRegistry reg sid stage (.update change)).sessions.get? sid =
      (reg.sessions.get? sid).map change.apply :=
  (Dict.get?_modify _ _ _ _).trans (if_pos rfl)

theorem get?_remove (reg : Registry) :
    (onRegistry reg sid stage .remove).sessions.get? sid = none :=
  (Dict.get?_erase _ _ _).trans (if_pos rfl)

theorem Update.username_apply (change : Update) (session : Session) :
    (change.apply session).username = session.username := by
  cases change <;> rfl

/-- The session on file under a thread's own `sid` after its call. -/
theorem Moves.kept (h : Moves world conn act stage) {reg : Registry} {session : Session}
    (hkept : ∀ session, reg.sessions.get? sid = some session → conn.stage.Keeps session.username)
    (hget : (onRegistry reg sid conn.stage act).sessions.get? sid = some session) :
    stage.Keeps session.username := by
  cases h with
  | register hstage =>
      rw [hstage, get?_register] at hget
      cases hget
      exact .inl rfl
  | @update username change hstage =>
      rw [get?_update] at hget
      obtain ⟨old, hold, rfl⟩ := Option.map_eq_some_iff.mp hget
      rw [change.username_apply]
      rcases hkept old hold with hkeeps | hkeeps
      · exact .inl (hstage.symm.trans hkeeps)
      · rw [hstage] at hkeeps
        cases hkeeps
  | remove hstage =>
      rw [get?_remove] at hget
      cases hget
  | unnamed _ | unknown _ | leave _ _ _ => exact .inr rfl
  | peercred hstage | named hstage _ | known hstage _ | close hstage | release hstage =>
      rcases hkept session hget with hkeeps | hkeeps
      · rw [hstage] at hkeeps
        cases hkeeps
      · rw [hstage] at hkeeps
        cases hkeeps

/-- And the one that was not on file before. -/
theorem Moves.struckOff (h : Moves world conn act stage) {reg : Registry}
    (hpassed : conn.stage.passed = true) (hget : reg.sessions.get? sid = none) :
    (onRegistry reg sid conn.stage act).sessions.get? sid = none := by
  cases h with
  | register hstage =>
      rw [hstage] at hpassed
      cases hpassed
  | @update username change hstage =>
      rw [get?_update, hget]
      rfl
  | remove hstage => exact get?_remove reg
  | _ => exact hget

theorem Moves.registered (h : Moves world conn act stage) {reg : Registry} {username : String}
    (hstage : stage = .session username) (hregistered : ∀ username,
      conn.stage = .session username → ∃ session, reg.sessions.get? sid = some session) :
    ∃ session, (onRegistry reg sid conn.stage act).sessions.get? sid = some session := by
  cases h with
  | register hadmitted =>
      rw [hadmitted]
      exact ⟨_, get?_register reg _⟩
  | @update _ change hsession =>
      obtain ⟨session, hget⟩ := hregistered _ hsession
      refine ⟨change.apply session, ?_⟩
      rw [get?_update, hget]
      rfl
  | _ => cases hstage

theorem accounted_act (h : Accounted maxThreads world) (hconn : world.conns.get? sid = some conn)
    (hmoves : Moves world conn act stage) : Accounted maxThreads { world with
      permits := onPermits world.permits act
      conns := world.conns.set sid { conn with stage }
      registry := onRegistry world.registry sid conn.stage act } where
  permits := by
    have htally := Dict.tally_set (p := fun conn => conn.stage.running)
      (v := { conn with stage }) hconn
    have hpermits := hmoves.permits world.permits
    have htotal := h.permits
    rw [hmoves.running, if_pos rfl] at htally
    dsimp only at htally ⊢
    omega
  kept other session hget := by
    rw [Dict.get?_set]
    by_cases hother : other = sid
    · subst hother
      rw [if_pos rfl]
      refine ⟨_, rfl, hmoves.kept (fun old hold => ?_) hget⟩
      obtain ⟨known, hknown, hkeeps⟩ := h.kept other old hold
      rw [hconn] at hknown
      cases hknown
      exact hkeeps
    · rw [if_neg hother]
      rw [get?_onRegistry_other _ hother] at hget
      exact h.kept other session hget
  killed other hother := by
    obtain ⟨hgone, known, hknown, hpassed⟩ := h.killed other hother
    rw [Dict.get?_set]
    by_cases hsid : other = sid
    · subst hsid
      rw [hconn] at hknown
      cases hknown
      rw [if_pos rfl]
      exact ⟨hmoves.struckOff hpassed hgone, _, rfl, hmoves.passed hpassed⟩
    · rw [if_neg hsid, get?_onRegistry_other _ hsid]
      exact ⟨hgone, known, hknown, hpassed⟩
  registered other found username hfound hstage hkept := by
    rw [Dict.get?_set] at hfound
    by_cases hsid : other = sid
    · subst hsid
      rw [if_pos rfl] at hfound
      cases hfound
      exact hmoves.registered hstage fun name hname =>
        h.registered other conn name hconn hname hkept
    · rw [if_neg hsid] at hfound
      rw [get?_onRegistry_other _ hsid]
      exact h.registered other found username hfound hstage hkept

theorem accounted_accept (h : Accounted maxThreads world) {peerUid permits : Nat}
    (hnew : world.conns.get? sid = none) (hpermits : world.permits = permits + 1) :
    Accounted maxThreads { world with
      permits, conns := world.conns.set sid ⟨peerUid, .identifying⟩ } where
  permits := by
    have htally := Dict.tally_set_new (p := fun conn => conn.stage.running)
      (v := ⟨peerUid, .identifying⟩) hnew
    have htotal := h.permits
    rw [show (Stage.identifying.running) = true from rfl, if_pos rfl] at htally
    dsimp only
    omega
  kept other session hget := by
    obtain ⟨known, hknown, hkeeps⟩ := h.kept other session hget
    refine ⟨known, ?_, hkeeps⟩
    rw [Dict.get?_set, if_neg fun heq => ?_]
    · exact hknown
    · rw [heq, hnew] at hknown
      cases hknown
  killed other hother := by
    obtain ⟨hgone, known, hknown, hpassed⟩ := h.killed other hother
    refine ⟨hgone, known, ?_, hpassed⟩
    rw [Dict.get?_set, if_neg fun heq => ?_]
    · exact hknown
    · rw [heq, hnew] at hknown
      cases hknown
  registered other found username hfound hstage hkept := by
    rw [Dict.get?_set] at hfound
    split at hfound
    · cases hfound
      cases hstage
    · exact h.registered other found username hfound hstage hkept

theorem accounted_enforced (h : Accounted maxThreads world) {calls : String → SockCalls}
    {result : Enforcement}
    (hresult : SessionRegistry.killStale rt world.stores.userMap world.stores.cfg calls
      world.registry = .ok result) : Accounted maxThreads { world with
        registry := result.registry, killed := world.killed ++ result.stale } := by
  obtain ⟨found, hscan, hstale, hregistry, -⟩ := killStale_spec hresult
  have hget : ∀ other, result.registry.sessions.get? other =
      if other ∈ result.stale then none else world.registry.sessions.get? other := by
    intro other
    rw [hregistry, hstale]
    exact Dict.get?_eraseMany _ _ _
  constructor
  · exact h.permits
  · intro other session hother
    rw [hget] at hother
    split at hother
    · cases hother
    · exact h.kept other session hother
  · intro other hother
    rw [hget]
    rcases List.mem_append.mp hother with hkilled | hnow
    · obtain ⟨hgone, hknown⟩ := h.killed other hkilled
      rw [hgone, ite_self]
      exact ⟨rfl, hknown⟩
    · rw [if_pos hnow]
      rw [hstale, scan_spec rt _ _ hscan] at hnow
      obtain ⟨session, verdict, hmem, -, -⟩ := hnow
      obtain ⟨known, hknown, hkeeps⟩ := h.kept other session (Dict.get?_eq_some_iff.mpr hmem)
      refine ⟨rfl, known, hknown, ?_⟩
      rcases hkeeps with hkeeps | hkeeps <;> rw [hkeeps] <;> rfl
  · intro other found username hfound hstage hkept
    rw [List.mem_append, not_or] at hkept
    rw [hget, if_neg hkept.2]
    exact h.registered other found username hfound hstage hkept.1

theorem accounted_steps {event : Event} (h : Accounted maxThreads world)
    (hsteps : Steps rt world event next) : Accounted maxThreads next := by
  cases hsteps with
  | accepted hnew hpermits => exact accounted_accept h hnew hpermits
  | act hconn hmoves => exact accounted_act h hconn hmoves
  | enforced hresult => exact accounted_enforced h hresult
  | dropped | raised => exact h
  | stopped | reload | accounts => exact ⟨h.permits, h.kept, h.killed, h.registered⟩

theorem accounted_start (stores : Stores) (passwd : Nat → Option String) :
    Accounted maxThreads (.start maxThreads stores passwd) where
  permits := rfl
  kept _ _ h := nomatch h
  killed _ h := nomatch h
  registered _ _ _ h := nomatch h

theorem accounted {start : World} {events : List Event} (hstart : Accounted maxThreads start)
    (hrun : Run (step rt) start events world) : Accounted maxThreads world :=
  hrun.invariant (fun _ _ _ hinv hstep => accounted_steps hinv (steps_of_step hstep)) hstart

/-- In every run the permits and the threads make up the limit, and no more sessions
are on file than that.  A session is on file under its own thread, from `registry.add`
to the thread's `finally` exactly unless an enforcement pass strikes it off, and one
that is struck off does not come back. -/
theorem sessions_accounted {stores : Stores} {passwd : Nat → Option String} {events : List Event}
    (hrun : Run (step rt) (.start maxThreads stores passwd) events world) :
    world.permits + world.conns.tally (fun conn => conn.stage.running) = maxThreads ∧
    world.registry.sessions.keys.length ≤ maxThreads ∧
    (∀ sid session, world.registry.sessions.get? sid = some session → sid ∉ world.killed ∧
      ∃ conn, world.conns.get? sid = some conn ∧ conn.stage.Keeps session.username) ∧
    ∀ sid conn username, world.conns.get? sid = some conn → conn.stage = .session username →
      ((∃ session, world.registry.sessions.get? sid = some session) ↔ sid ∉ world.killed) := by
  have haccounted := accounted (accounted_start stores passwd) hrun
  have hnotKilled : ∀ sid session, world.registry.sessions.get? sid = some session →
      sid ∉ world.killed := by
    intro sid session hget hkilled
    obtain ⟨hgone, -⟩ := haccounted.killed sid hkilled
    rw [hgone] at hget
    cases hget
  refine ⟨haccounted.permits, ?_, fun sid session hget =>
    ⟨hnotKilled sid session hget, haccounted.kept sid session hget⟩,
    fun sid conn username hconn hstage => ⟨fun ⟨session, hget⟩ => hnotKilled sid session hget,
      haccounted.registered sid conn username hconn hstage⟩⟩
  have hbound := Dict.length_le_tally (d := world.conns)
    (p := fun conn => conn.stage.running) world.registry.sessions.nodup_keys ?_
  · have htotal := haccounted.permits
    omega
  · intro sid hsid
    obtain ⟨session, hget⟩ := Dict.exists_of_mem_keys hsid
    obtain ⟨conn, hconn, hkeeps⟩ := haccounted.kept sid session hget
    refine ⟨conn, hconn, ?_⟩
    rcases hkeeps with hkeeps | hkeeps <;> rw [hkeeps] <;> rfl

def aliceOnly : Stores := ⟨.ofFields [("users", .ofFields [("alice", .ofFields [])])], .emptyDict⟩

def aliceAt1000 (uid : Nat) : Option String := if uid = 1000 then some "alice" else none

def aliceArrives : List Event :=
  [.accept "s1" 1000, .act "s1" .peercred, .act "s1" (.lookup .answered), .act "s1" .check,
    .act "s1" .register]

/-- Of two connections and one permit the second is dropped. -/
theorem sessions_accounted_alice :
    ∃ world, Run (step .plain) (.start 1 aliceOnly aliceAt1000)
        (aliceArrives ++ [.accept "s2" 1001]) world ∧
      world.registry.sessions.keys = ["s1"] ∧ world.registry.sessions.keys.length ≤ 1 := by
  have hrun : ∃ world, Run (step .plain) (.start 1 aliceOnly aliceAt1000)
      (aliceArrives ++ [.accept "s2" 1001]) world ∧
        world.registry.sessions.keys = ["s1"] := ⟨_, run_of_exec rfl, rfl⟩
  obtain ⟨world, hrun, hkeys⟩ := hrun
  exact ⟨world, hrun, hkeys, (sessions_accounted hrun).2.1⟩

/-! Where the name of a session comes from. -/

/-- On the way to where the worker is now, the account database had the name for the
uid, -/
def NamedBy (rt : Runtime) (start : World) (past : List Event) (world : World) (uid : Nat)
    (username : String) : Prop :=
  ∃ before after atLookup, past = before ++ after ∧ Run (step rt) start before atLookup ∧
    Run (step rt) atLookup after world ∧ atLookup.passwd uid = some username

/-- and later the user map had the user. -/
def Admitted (rt : Runtime) (start : World) (past : List Event) (world : World) (uid : Nat)
    (username : String) : Prop :=
  ∃ before middle after atLookup atCheck, past = before ++ (middle ++ after) ∧
    Run (step rt) start before atLookup ∧ Run (step rt) atLookup middle atCheck ∧
    Run (step rt) atCheck after world ∧ atLookup.passwd uid = some username ∧
    userExists atCheck.stores.userMap username = .ok true

def Vouched (rt : Runtime) (start : World) (past : List Event) (world : World) (peerUid : Nat) :
    Stage → Prop
  | .resolving uid => uid = peerUid
  | .checking username => NamedBy rt start past world peerUid username
  | .admitted username | .session username => Admitted rt start past world peerUid username
  | .identifying | .leaving | .closing | .releasing | .ended => True

variable {start : World} {past : List Event} {event : Event} {uid : Nat} {username : String}

theorem NamedBy.snoc (h : NamedBy rt start past world uid username)
    (hstep : step rt world event = some next) :
    NamedBy rt start (past ++ [event]) next uid username := by
  obtain ⟨before, after, atLookup, rfl, hbefore, hafter, hname⟩ := h
  exact ⟨before, after ++ [event], atLookup, List.append_assoc .., hbefore,
    hafter.append (.cons hstep (.nil next)), hname⟩

theorem Admitted.snoc (h : Admitted rt start past world uid username)
    (hstep : step rt world event = some next) :
    Admitted rt start (past ++ [event]) next uid username := by
  obtain ⟨before, middle, after, atLookup, atCheck, rfl, hbefore, hmiddle, hafter, hname,
    hknown⟩ := h
  refine ⟨before, middle, after ++ [event], atLookup, atCheck, ?_, hbefore, hmiddle,
    hafter.append (.cons hstep (.nil next)), hname, hknown⟩
  simp only [List.append_assoc]

theorem Vouched.snoc (h : Vouched rt start past world uid stage)
    (hstep : step rt world event = some next) :
    Vouched rt start (past ++ [event]) next uid stage := by
  cases stage with
  | resolving _ => exact h
  | checking _ => exact NamedBy.snoc h hstep
  | admitted _ | session _ => exact Admitted.snoc h hstep
  | identifying | leaving | closing | releasing | ended => exact trivial

theorem NamedBy.admitted (h : NamedBy rt start past world uid username)
    (hknown : userExists world.stores.userMap username = .ok true) :
    Admitted rt start past world uid username := by
  obtain ⟨before, after, atLookup, rfl, hbefore, hafter, hname⟩ := h
  refine ⟨before, after, [], atLookup, world, ?_, hbefore, hafter, .nil world, hname, hknown⟩
  rw [List.append_nil]

structure Traced (rt : Runtime) (start : World) (past : List Event) (world : World) : Prop where
  run : Run (step rt) start past world
  conns : ∀ sid conn, world.conns.get? sid = some conn →
    Vouched rt start past world conn.peerUid conn.stage
  sessions : ∀ sid session, world.registry.sessions.get? sid = some session →
    ∃ conn, world.conns.get? sid = some conn ∧
      Admitted rt start past world conn.peerUid session.username

theorem Moves.vouched (h : Moves world conn act stage) (hrun : Run (step rt) start past world)
    (hvouched : Vouched rt start past world conn.peerUid conn.stage) :
    Vouched rt start past world conn.peerUid stage := by
  cases h with
  | peercred _ => exact rfl
  | named hstage hname =>
      rw [hstage] at hvouched
      cases hvouched
      exact ⟨past, [], world, (List.append_nil past).symm, hrun, .nil world, hname⟩
  | known hstage hknown =>
      rw [hstage] at hvouched
      exact NamedBy.admitted hvouched hknown
  | register hstage | update hstage =>
      rw [hstage] at hvouched
      exact hvouched
  | unnamed _ | unknown _ | leave _ _ _ | remove _ | close _ | release _ => exact trivial

/-- A session that a thread's call leaves on file has a name that somebody vouches for. -/
theorem Moves.onFile (h : Moves world conn act stage) {reg : Registry} (vouches : String → Prop)
    (hstage : ∀ username, conn.stage = .admitted username → vouches username)
    (hreg : ∀ session, reg.sessions.get? sid = some session → vouches session.username)
    {session : Session}
    (hget : (onRegistry reg sid conn.stage act).sessions.get? sid = some session) :
    vouches session.username := by
  cases h with
  | register hadmitted =>
      rw [hadmitted, get?_register] at hget
      cases hget
      exact hstage _ hadmitted
  | @update _ change _ =>
      rw [get?_update] at hget
      obtain ⟨old, hold, rfl⟩ := Option.map_eq_some_iff.mp hget
      rw [change.username_apply]
      exact hreg old hold
  | remove _ =>
      rw [get?_remove] at hget
      cases hget
  | _ => exact hreg session hget

theorem traced_step (h : Traced rt start past world) (hstep : step rt world event = some next) :
    Traced rt start (past ++ [event]) next := by
  obtain ⟨hrun, hconns, hsessions⟩ := h
  have hrun' : Run (step rt) start (past ++ [event]) next :=
    hrun.append (.cons hstep (.nil next))
  have hsteps := steps_of_step hstep
  cases hsteps with
  | accepted hnew hpermits =>
      refine ⟨hrun', fun other found hfound => ?_, fun other session hget => ?_⟩
      · dsimp only at hfound
        rw [Dict.get?_set] at hfound
        split at hfound
        · cases hfound
          exact trivial
        · exact (hconns other found hfound).snoc hstep
      · obtain ⟨known, hknown, hadmitted⟩ := hsessions other session hget
        refine ⟨known, ?_, hadmitted.snoc hstep⟩
        dsimp only
        rw [Dict.get?_set, if_neg fun heq => ?_]
        · exact hknown
        · rw [heq, hnew] at hknown
          cases hknown
  | @act sid act conn stage hconn hmoves =>
      refine ⟨hrun', fun other found hfound => ?_, fun other session hget => ?_⟩
      · dsimp only at hfound
        rw [Dict.get?_set] at hfound
        split at hfound
        · cases hfound
          exact (hmoves.vouched hrun (hconns sid conn hconn)).snoc hstep
        · exact (hconns other found hfound).snoc hstep
      · dsimp only at hget ⊢
        by_cases hother : other = sid
        · subst hother
          rw [Dict.get?_set, if_pos rfl]
          refine ⟨_, rfl, ?_⟩
          refine hmoves.onFile (fun name => Admitted rt start _ _
            conn.peerUid name) (fun name hname => ?_) (fun old hold => ?_) hget
          · have hvouched := hconns other conn hconn
            rw [hname] at hvouched
            exact Admitted.snoc hvouched hstep
          · obtain ⟨known, hknown, hadmitted⟩ := hsessions other old hold
            rw [hconn] at hknown
            cases hknown
            exact hadmitted.snoc hstep
        · rw [get?_onRegistry_other _ hother] at hget
          rw [Dict.get?_set, if_neg hother]
          obtain ⟨known, hknown, hadmitted⟩ := hsessions other session hget
          exact ⟨known, hknown, hadmitted.snoc hstep⟩
  | enforced hresult =>
      obtain ⟨found, -, -, hregistry, -⟩ := killStale_spec hresult
      refine ⟨hrun', fun other known hknown => (hconns other known hknown).snoc hstep,
        fun other session hget => ?_⟩
      dsimp only at hget
      rw [hregistry, removeMany, Dict.get?_eraseMany] at hget
      obtain ⟨-, hget⟩ := Option.ite_none_left_eq_some.mp hget
      obtain ⟨known, hknown, hadmitted⟩ := hsessions other session hget
      exact ⟨known, hknown, hadmitted.snoc hstep⟩
  | dropped | raised | stopped | reload | accounts =>
      refine ⟨hrun', fun other known hknown => (hconns other known hknown).snoc hstep,
        fun other session hget => ?_⟩
      obtain ⟨known, hknown, hadmitted⟩ := hsessions other session hget
      exact ⟨known, hknown, hadmitted.snoc hstep⟩

theorem traced {maxThreads : Nat} {stores : Stores} {passwd : Nat → Option String}
    {events : List Event}
    (hrun : Run (step rt) (.start maxThreads stores passwd) events world) :
    Traced rt (.start maxThreads stores passwd) events world :=
  (hrun.guarded fun _ _ => trivial).history (fun _ _ _ _ hpast _ hstep => traced_step hpast hstep)
    ⟨.nil _, (fun _ _ h => nomatch h), (fun _ _ h => nomatch h)⟩

/-- In every run the name of a session is one that the account database had, at some
moment, for the uid that the kernel noted of the process that connected, and that the
user map had at a later moment.  Nothing that a client sends has a part in it. -/
theorem sessions_identified {maxThreads : Nat} {stores : Stores}
    {passwd : Nat → Option String} {events : List Event}
    (hrun : Run (step rt) (.start maxThreads stores passwd) events world) {sid : String}
    {session : Session} (hget : world.registry.sessions.get? sid = some session) :
    ∃ conn, world.conns.get? sid = some conn ∧
      Admitted rt (.start maxThreads stores passwd) events world conn.peerUid session.username :=
  (traced hrun).sessions sid session hget

theorem sessions_identified_alice :
    ∃ world conn, Run (step .plain) (.start 1 aliceOnly aliceAt1000) aliceArrives world ∧
      world.conns.get? "s1" = some conn ∧ conn.peerUid = 1000 ∧
      Admitted .plain (.start 1 aliceOnly aliceAt1000) aliceArrives world conn.peerUid "alice" := by
  have hrun : ∃ world, Run (step .plain) (.start 1 aliceOnly aliceAt1000) aliceArrives world ∧
      world.registry.sessions.get? "s1" = some ⟨"alice", "prompt", none, false⟩ ∧
      world.conns.get? "s1" = some ⟨1000, .session "alice"⟩ := ⟨_, run_of_exec rfl, rfl, rfl⟩
  obtain ⟨world, hrun, hget, hconn⟩ := hrun
  obtain ⟨conn, hfound, hadmitted⟩ := sessions_identified hrun hget
  rw [hconn] at hfound
  cases hfound
  exact ⟨world, _, hrun, hconn, rfl, hadmitted⟩

end Vnctlsd.Worker.Connections
