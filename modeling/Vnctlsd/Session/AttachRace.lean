import Mathlib.Logic.Function.Basic
import Vnctlsd.Session.Revocation
import Vnctlsd.Worker.ConsoleReads

/-! Enforcement against sessions on their way to a console.  `kill_stale` runs
under the registry's lock, so it is one step; a session decides, spawns,
announces itself and attaches in steps of its own. -/
namespace Vnctlsd.AttachRace
open Vnctlsd.Library Vnctlsd.Library.Transition Vnctlsd.Library.Reads Vnctlsd.Python
open ConsoleConfigStore UserMapStore ACLResolver SessionRegistry Enforcement
open Monitor.Replication (Stores receive enforceReq)
open Worker.ConsoleCommand Worker.ConsoleReads

/-- What splitting a line leaves is never empty. -/
abbrev Word := { word : String // word ≠ "" }

/-- Where a session stands; `closing` is the `finally` of its handler. -/
inductive Pc where
  | prompt
  | reading (cname : Word) (reads : Reading (Option (PyVal × Level)))
  | granted (cname : Word) (defn : PyVal) (level : Level)
  | spawning (cname : Word) (level : Level)
  | cleared (cname : Word) (level : Level)
  | announced (cname : Word)
  | attached (cname : Word)
  | leaving
  | closing
  | ended

/-- `cut` once an enforcement pass has shut the session's socket down. -/
structure Thread where
  username : String
  pc : Pc
  cut : Bool

/-- `enforcing` while the listener is inside an ENFORCE_REQ, `enforced` from the
return of `kill_stale` until either store is replaced. -/
structure World where
  stores : Stores
  registry : Registry
  threads : String → Option Thread
  enforcing : Bool
  enforced : Bool

inductive Act where
  | command (cname : Word)
  | look (hubLive : Bool)
  | seekHub (hubLive : Bool)
  | spawned (ok : Bool)
  | announce
  | attach
  | confirm
  | detach
  | back
  | leave
  | close

inductive Event where
  | login (sid username : String)
  | act (sid : String) (act : Act)
  | deliver (msg : PyVal)
  | killStale (calls : String → SockCalls)

def settle (cname : Word) : Reading (Option (PyVal × Level)) → Pc
  | .ret (.ok (some (defn, level))) => .granted cname defn level
  | .ret (.ok none) => .prompt
  | .ret (.error _) => .closing
  | .read next => .reading cname (.read next)

def afterSeek (cname : Word) (defn : PyVal) (level : Level) (hubLive : Bool) : Pc :=
  match activate defn level hubLive with
  | .ok (.attach level) => .cleared cname level
  | .ok (.spawn level) => .spawning cname level
  | .ok _ => .prompt
  | .error _ => .closing

/-- A session that raises or quits goes to its `finally`; on a console it stays
until it detaches. -/
def sessionStep (rt : Runtime) (stores : Stores) (reg : Registry) (sid : String)
    (thread : Thread) : Act → Option (Pc × Registry)
  | .command cname =>
      match thread.pc with
      | .prompt => some (.reading cname (commandReads rt thread.username cname), reg)
      | _ => none
  | .look hubLive =>
      match thread.pc with
      | .reading cname reads => some (settle cname (reads.next ⟨stores, hubLive⟩), reg)
      | _ => none
  | .seekHub hubLive =>
      match thread.pc with
      | .granted cname defn level => some (afterSeek cname defn level hubLive, reg)
      | _ => none
  | .spawned ok =>
      match thread.pc with
      | .spawning cname level => some (if ok then .cleared cname level else .prompt, reg)
      | _ => none
  | .announce =>
      match thread.pc with
      | .cleared cname level => some (.announced cname, update reg sid fun session =>
          { session with
            state := "console", console := some cname, readOnly := level == .readOnly })
      | _ => none
  | .attach =>
      match thread.pc with
      | .announced cname => some (.attached cname, reg)
      | _ => none
  | .confirm =>
      match thread.pc with
      | .attached cname => some (.attached cname, update reg sid fun session =>
          { session with state := "console" })
      | _ => none
  | .detach =>
      match thread.pc with
      | .attached _ => some (.leaving, reg)
      | _ => none
  | .back =>
      match thread.pc with
      | .leaving => some (if thread.cut then .closing else .prompt,
          update reg sid fun session => { session with state := "prompt", console := none })
      | _ => none
  | .leave =>
      match thread.pc with
      | .attached _ | .closing | .ended => none
      | _ => some (.closing, reg)
  | .close =>
      match thread.pc with
      | .closing => some (.ended, remove reg sid)
      | _ => none

def isEnforceReq (msg : PyVal) : Py Bool := do
  pure ((← msg.get "type" .none).eqStr "ENFORCE_REQ")

/-- The frame replaces the configuration or the user map. -/
def replaces (msg : PyVal) : Py Bool := do
  let mtype ← msg.get "type" .none
  if mtype.eqStr "CONFIG_UPDATE" then do pure (← msg.get "console_config" .none).truthy
  else if mtype.eqStr "ENFORCE_REQ" then do pure (← msg.get "user_map" .none).truthy
  else pure false

def listen (rt : Runtime) (world : World) (msg : PyVal) : Py World := do
  let replaced ← replaces msg
  let enforcing ← isEnforceReq msg
  let stores ← receive rt world.stores msg
  pure { world with stores, enforcing, enforced := world.enforced && !replaced }

def cutOff (result : Enforcement) (sid : String) : Bool :=
  result.dropped.any fun left => left.1 == sid && left.2.shut

/-- A frame or a pass that raises ends the listener. -/
def step (rt : Runtime) (world : World) : Event → Option World
  | .login sid username =>
      match world.threads sid with
      | some _ => none
      | none => some { world with
          registry := add world.registry sid username "prompt" ⟨false, false⟩ none false
          threads := Function.update world.threads sid (some ⟨username, .prompt, false⟩) }
  | .act sid act => do
      let thread ← world.threads sid
      let moved ← sessionStep rt world.stores world.registry sid thread act
      some { world with
        registry := moved.2
        threads := Function.update world.threads sid (some { thread with pc := moved.1 }) }
  | .deliver msg => if world.enforcing then none else (listen rt world msg).toOption
  | .killStale calls =>
      if !world.enforcing then none
      else match killStale rt world.stores.userMap world.stores.cfg calls world.registry with
        | .error _ => none
        | .ok result => some { world with
            registry := result.registry
            threads := fun sid => (world.threads sid).map fun thread =>
              { thread with cut := thread.cut || cutOff result sid }
            enforcing := false
            enforced := true }

def World.start (stores : Stores) : World := ⟨stores, .empty, fun _ => none, false, false⟩

/-- The console a session attaches to unless something stops it. -/
def Pc.bound : Pc → Option Word
  | .granted cname _ _ | .spawning cname _ | .cleared cname _ => some cname
  | .announced cname | .attached cname => some cname
  | .prompt | .reading _ _ | .leaving | .closing | .ended => none

/-- The console the registry has on file for a session. -/
def Pc.announcedOn : Pc → Option Word
  | .announced cname | .attached cname => some cname
  | _ => none

/-- The policy in force defines the console and refuses it to the user. -/
def Denies (rt : Runtime) (stores : Stores) (username : String) (cname : Word) : Prop :=
  Explicit stores.cfg cname ∧ NameRefuses rt stores.userMap stores.cfg username cname

/-- The session attaches with no further step towards an access decision. -/
def GoesOnToAttach (rt : Runtime) (world : World) (sid : String) (cname : Word) : Prop :=
  ∃ events finish thread, Run (step rt) world events finish ∧
    (∀ hubLive, .act sid (.look hubLive) ∉ events) ∧
    finish.threads sid = some thread ∧ thread.pc = .attached cname

/-- While the current policy stands enforced, whoever it denies a console neither
is nor gets attached to it, but for sessions that have been disconnected. -/
def NotOutrun (rt : Runtime) (world : World) : Prop :=
  world.enforced = true → ∀ sid thread cname, world.threads sid = some thread →
    Denies rt world.stores thread.username cname → GoesOnToAttach rt world sid cname →
    thread.cut = true

/-- Whatever hubs there are, the readings left under these stores grant nothing. -/
def WillRefuse (stores : Stores) (reads : Reading (Option (PyVal × Level))) : Prop :=
  Ensures (fun view => view.stores = stores) (fun result => ∀ grant, result ≠ .ok (some grant))
    reads

/-- The session has no access in hand that the policy denies, nor can its
readings still come to any. -/
def Heeds (rt : Runtime) (stores : Stores) (username : String) (pc : Pc) : Prop :=
  ∀ cname, Denies rt stores username cname → pc.bound ≠ some cname ∧
    ∀ reads, pc = .reading cname reads → WillRefuse stores reads

/-- The pass meets no session between its access decision and its announcement
whom it would deny that console, and every disconnection it makes succeeds. -/
def CatchesAll (rt : Runtime) (world : World) : Event → Prop
  | .killStale calls =>
      (∀ sid session verdict, (sid, session) ∈ world.registry.sessions.entries →
        check rt world.stores.userMap world.stores.cfg session = .ok verdict →
        verdict.stale = true → (calls sid).sendall = true ∧ (calls sid).shutdown = true) ∧
      ∀ sid thread, world.threads sid = some thread → thread.cut = false →
        thread.pc.announcedOn.isNone = true →
        Heeds rt world.stores thread.username thread.pc
  | _ => True

/-- The session is on file, under its user and the console it has announced. -/
def OnFile (reg : Registry) (sid : String) (username : String) (pc : Pc) : Prop :=
  ∃ session, reg.sessions.get? sid = some session ∧ session.username = username ∧
    ∀ cname, pc.announcedOn = some cname → consoleOf session = some cname.1

structure Caught (rt : Runtime) (world : World) : Prop where
  onFile : ∀ sid thread, world.threads sid = some thread → thread.cut = false →
    thread.pc ≠ .ended → OnFile world.registry sid thread.username thread.pc
  heeds : world.enforced = true → ∀ sid thread, world.threads sid = some thread →
    thread.cut = false → Heeds rt world.stores thread.username thread.pc

theorem bound_of_announcedOn {pc : Pc} {cname : Word} (h : pc.announcedOn = some cname) :
    pc.bound = some cname ∧ ∀ other reads, pc ≠ .reading other reads := by
  cases pc with
  | announced other | attached other => exact ⟨h, fun _ _ heq => by cases heq⟩
  | _ => cases h

/-- What a session's step starts from and what it leaves. -/
inductive Moves (rt : Runtime) (stores : Stores) (reg : Registry) (sid : String)
    (thread : Thread) : Act → Pc × Registry → Prop where
  | command {cname : Word} : thread.pc = .prompt → Moves rt stores reg sid thread
      (.command cname) (.reading cname (commandReads rt thread.username cname), reg)
  | look {hubLive : Bool} {cname : Word} {reads : Reading (Option (PyVal × Level))} :
      thread.pc = .reading cname reads → Moves rt stores reg sid thread
        (.look hubLive) (settle cname (reads.next ⟨stores, hubLive⟩), reg)
  | seekHub {hubLive : Bool} {cname : Word} {defn : PyVal} {level : Level} :
      thread.pc = .granted cname defn level → Moves rt stores reg sid thread
        (.seekHub hubLive) (afterSeek cname defn level hubLive, reg)
  | spawned {ok : Bool} {cname : Word} {level : Level} :
      thread.pc = .spawning cname level → Moves rt stores reg sid thread
        (.spawned ok) (if ok then .cleared cname level else .prompt, reg)
  | announce {cname : Word} {level : Level} :
      thread.pc = .cleared cname level → Moves rt stores reg sid thread
        .announce (.announced cname, update reg sid fun session =>
          { session with
            state := "console", console := some cname, readOnly := level == .readOnly })
  | attach {cname : Word} : thread.pc = .announced cname →
      Moves rt stores reg sid thread .attach (.attached cname, reg)
  | confirm {cname : Word} : thread.pc = .attached cname → Moves rt stores reg sid thread
      .confirm (.attached cname, update reg sid fun session => { session with state := "console" })
  | detach {cname : Word} : thread.pc = .attached cname →
      Moves rt stores reg sid thread .detach (.leaving, reg)
  | back : thread.pc = .leaving → Moves rt stores reg sid thread .back
      (if thread.cut then .closing else .prompt,
        update reg sid fun session => { session with state := "prompt", console := none })
  | leave : thread.pc ≠ .ended → Moves rt stores reg sid thread .leave (.closing, reg)
  | close : thread.pc = .closing → Moves rt stores reg sid thread .close (.ended, remove reg sid)

theorem moves_of_sessionStep {rt : Runtime} {stores : Stores} {reg : Registry} {sid : String}
    {thread : Thread} {act : Act} {moved : Pc × Registry}
    (h : sessionStep rt stores reg sid thread act = some moved) :
    Moves rt stores reg sid thread act moved := by
  cases act with
  | command cname =>
      simp only [sessionStep] at h
      split at h <;> cases h
      exact .command ‹_›
  | look hubLive =>
      simp only [sessionStep] at h
      split at h <;> cases h
      exact .look ‹_›
  | seekHub hubLive =>
      simp only [sessionStep] at h
      split at h <;> cases h
      exact .seekHub ‹_›
  | spawned ok =>
      simp only [sessionStep] at h
      split at h <;> cases h
      exact .spawned ‹_›
  | announce =>
      simp only [sessionStep] at h
      split at h <;> cases h
      exact .announce ‹_›
  | attach =>
      simp only [sessionStep] at h
      split at h <;> cases h
      exact .attach ‹_›
  | confirm =>
      simp only [sessionStep] at h
      split at h <;> cases h
      exact .confirm ‹_›
  | detach =>
      simp only [sessionStep] at h
      split at h <;> cases h
      exact .detach ‹_›
  | back =>
      simp only [sessionStep] at h
      split at h <;> cases h
      exact .back ‹_›
  | leave =>
      simp only [sessionStep] at h
      split at h <;> cases h
      exact .leave ‹_›
  | close =>
      simp only [sessionStep] at h
      split at h <;> cases h
      exact .close ‹_›

theorem settle_announcedOn (cname : Word) (reads : Reading (Option (PyVal × Level))) :
    (settle cname reads).announcedOn = none := by
  unfold settle
  split <;> rfl

theorem afterSeek_announcedOn (cname : Word) (defn : PyVal) (level : Level) (hubLive : Bool) :
    (afterSeek cname defn level hubLive).announcedOn = none := by
  unfold afterSeek
  split <;> rfl

theorem afterSeek_bound {cname other : Word} {defn : PyVal} {level : Level} {hubLive : Bool}
    (h : (afterSeek cname defn level hubLive).bound = some other) : other = cname := by
  unfold afterSeek at h
  split at h <;> cases h <;> rfl

theorem afterSeek_ne_reading {cname other : Word} {defn : PyVal} {level : Level} {hubLive : Bool}
    {reads : Reading (Option (PyVal × Level))} :
    afterSeek cname defn level hubLive ≠ .reading other reads := by
  unfold afterSeek
  split <;> simp

theorem settle_bound {cname other : Word} {reads : Reading (Option (PyVal × Level))}
    (h : (settle cname reads).bound = some other) :
    other = cname ∧ ∃ grant, reads = .ret (.ok (some grant)) := by
  unfold settle at h
  split at h <;> cases h
  exact ⟨rfl, _, rfl⟩

theorem settle_reading {cname other : Word} {reads left : Reading (Option (PyVal × Level))}
    (h : settle cname reads = .reading other left) : other = cname ∧ left = reads := by
  unfold settle at h
  split at h <;> cases h
  exact ⟨rfl, rfl⟩

/-- Readings begun under a policy that denies the console come to nothing while
it stands. -/
theorem commandReads_willRefuse {rt : Runtime} {stores : Stores} {username : String}
    {cname : Word} (h : Denies rt stores username cname) :
    WillRefuse stores (commandReads rt username cname) := by
  obtain ⟨⟨defn, hdefn, hsome⟩, hrefuses⟩ := h
  have haccess := (nameRefuses_explicit hdefn hsome).mp hrefuses
  have hlookup : Settles (fun view => view.stores = stores) (lookupReads cname)
      (.ok (some (defn, .emptyDict))) :=
    lookupReads_explicit (fun view hview => congrArg Stores.cfg hview) hdefn hsome
  have hresolve : Settles (fun view => view.stores = stores)
      (resolveReads rt username (defn.orElse .emptyDict) .emptyDict)
      (resolveAccess rt stores.userMap username (defn.orElse .emptyDict) .emptyDict) :=
    resolveReads_settles (fun view hview => congrArg Stores.userMap hview) rt username _ _
  rw [haccess] at hresolve
  have hsettles : Settles (fun view => view.stores = stores) (commandReads rt username cname)
      (.ok none) :=
    Settles.bind (g := fun _ => .ok none) hlookup fun found hfound => by
      cases hfound
      exact Settles.bind (g := fun _ => .ok none) hresolve fun level hlevel => by
        cases hlevel
        exact rfl
  exact hsettles.imp fun result hresult grant => by simp [hresult]

theorem OnFile.quiet {reg : Registry} {sid username : String} {pc pc' : Pc}
    (h : OnFile reg sid username pc) (hquiet : pc'.announcedOn = none) :
    OnFile reg sid username pc' := by
  obtain ⟨session, hget, hname, -⟩ := h
  exact ⟨session, hget, hname, fun cname hcname => by simp [hquiet] at hcname⟩

theorem OnFile.update {reg : Registry} {sid username : String} {pc pc' : Pc} {f : Session → Session}
    (h : OnFile reg sid username pc) (hname : ∀ session, (f session).username = session.username)
    (hf : ∀ session cname, pc'.announcedOn = some cname →
      (∀ cname, pc.announcedOn = some cname → consoleOf session = some cname.1) →
      consoleOf (f session) = some cname.1) :
    OnFile (update reg sid f) sid username pc' := by
  obtain ⟨session, hget, husername, hconsole⟩ := h
  refine ⟨f session, ?_, (hname session).trans husername, fun cname hcname => ?_⟩
  · show (reg.sessions.modify sid f).get? sid = some (f session)
    rw [Dict.get?_modify, if_pos rfl, hget]
    rfl
  · exact hf session cname hcname hconsole

theorem consoleOf_eq_some {session : Session} {cname : String} :
    consoleOf session = some cname ↔
      session.state = "console" ∧ session.console = some cname ∧ cname ≠ "" := by
  unfold consoleOf
  split
  · rename_i hstate
    simp only [hstate, true_and, Option.filter_eq_some_iff, decide_eq_true_eq]
  · rename_i hstate
    simp [hstate]

theorem back_idle (cut : Bool) :
    (if cut then Pc.closing else .prompt).announcedOn = none ∧
      (if cut then Pc.closing else .prompt).bound = none ∧
      ∀ cname reads, (if cut then Pc.closing else .prompt) ≠ .reading cname reads := by
  cases cut <;> exact ⟨rfl, rfl, nofun⟩

theorem sessionStep_onFile {rt : Runtime} {stores : Stores} {reg : Registry} {sid : String}
    {thread : Thread} {act : Act} {moved : Pc × Registry}
    (h : OnFile reg sid thread.username thread.pc)
    (hstep : sessionStep rt stores reg sid thread act = some moved) (hends : moved.1 ≠ .ended) :
    OnFile moved.2 sid thread.username moved.1 := by
  cases moves_of_sessionStep hstep with
  | command _ | detach _ | leave _ => exact h.quiet rfl
  | look _ => exact h.quiet (settle_announcedOn ..)
  | seekHub _ => exact h.quiet (afterSeek_announcedOn ..)
  | @spawned ok _ _ _ => exact h.quiet (by cases ok <;> rfl)
  | @announce cname _ _ =>
      refine h.update (fun session => rfl) fun session other hother _ => ?_
      cases hother
      exact consoleOf_eq_some.mpr ⟨rfl, rfl, cname.2⟩
  | attach hpc =>
      rw [hpc] at h
      exact h
  | confirm hpc =>
      refine h.update (fun session => rfl) fun session other hother hsession => ?_
      rw [hpc] at hsession
      obtain ⟨-, hconsole, hne⟩ := consoleOf_eq_some.mp (hsession other hother)
      exact consoleOf_eq_some.mpr ⟨rfl, hconsole, hne⟩
  | back _ =>
      refine h.update (fun session => rfl) fun session other hother => ?_
      exact nomatch (back_idle thread.cut).1.symm.trans hother
  | close _ => exact absurd rfl hends

theorem sessionStep_alive {rt : Runtime} {stores : Stores} {reg : Registry} {sid : String}
    {thread : Thread} {act : Act} {moved : Pc × Registry}
    (hstep : sessionStep rt stores reg sid thread act = some moved) : thread.pc ≠ .ended := by
  cases moves_of_sessionStep hstep with
  | leave hpc => exact hpc
  | command hpc | look hpc | seekHub hpc | spawned hpc | announce hpc | attach hpc
  | confirm hpc | detach hpc | back hpc | close hpc =>
      rw [hpc]
      nofun

/-- A session's own steps touch no other session's entry. -/
theorem sessionStep_frame {rt : Runtime} {stores : Stores} {reg : Registry} {sid other : String}
    {thread : Thread} {act : Act} {moved : Pc × Registry}
    (hstep : sessionStep rt stores reg sid thread act = some moved) (hother : other ≠ sid) :
    moved.2.sessions.get? other = reg.sessions.get? other := by
  cases moves_of_sessionStep hstep with
  | announce _ | confirm _ | back _ => exact (Dict.get?_modify ..).trans (if_neg hother)
  | close _ => exact (Dict.get?_erase ..).trans (if_neg hother)
  | command _ | look _ | seekHub _ | spawned _ | attach _ | detach _ | leave _ => rfl

theorem Heeds.idle {rt : Runtime} {stores : Stores} {username : String} {pc : Pc}
    (hbound : pc.bound = none) (hreading : ∀ cname reads, pc ≠ .reading cname reads) :
    Heeds rt stores username pc :=
  fun cname _ => ⟨by simp [hbound], fun reads h => absurd h (hreading cname reads)⟩

/-- Moving on towards the same console keeps the policy heeded. -/
theorem Heeds.onward {rt : Runtime} {stores : Stores} {username : String} {pc pc' : Pc}
    {cname : Word} (h : Heeds rt stores username pc) (hpc : pc.bound = some cname)
    (hbound : ∀ other, pc'.bound = some other → other = cname)
    (hreading : ∀ other reads, pc' ≠ .reading other reads) : Heeds rt stores username pc' := by
  intro other hdenies
  refine ⟨fun hother => ?_, fun reads heq => absurd heq (hreading other reads)⟩
  rw [hbound other hother] at hdenies
  exact (h cname hdenies).1 hpc

theorem sessionStep_heeds {rt : Runtime} {stores : Stores} {reg : Registry} {sid : String}
    {thread : Thread} {act : Act} {moved : Pc × Registry}
    (h : Heeds rt stores thread.username thread.pc)
    (hstep : sessionStep rt stores reg sid thread act = some moved) :
    Heeds rt stores thread.username moved.1 := by
  cases moves_of_sessionStep hstep with
  | command hpc =>
      intro other hdenies
      refine ⟨nofun, fun reads heq => ?_⟩
      cases heq
      exact commandReads_willRefuse hdenies
  | @look hubLive cname reads hpc =>
      intro other hdenies
      have hleft (hcname : other = cname) :
          WillRefuse stores (reads.next ⟨stores, hubLive⟩) := by
        subst hcname
        exact ((h other hdenies).2 reads hpc).next rfl
      refine ⟨fun hbound => ?_, fun left heq => ?_⟩
      · obtain ⟨hcname, grant, hret⟩ := settle_bound hbound
        have hrefuses := hleft hcname
        rw [hret] at hrefuses
        exact hrefuses grant rfl
      · obtain ⟨hcname, rfl⟩ := settle_reading heq
        exact hleft hcname
  | seekHub hpc =>
      exact h.onward (congrArg Pc.bound hpc) (fun other => afterSeek_bound)
        fun other reads => afterSeek_ne_reading
  | @spawned ok _ _ hpc =>
      cases ok with
      | false => exact .idle rfl nofun
      | true => exact h.onward (congrArg Pc.bound hpc) (fun other heq => by cases heq; rfl) nofun
  | announce hpc | attach hpc | confirm hpc =>
      exact h.onward (congrArg Pc.bound hpc) (fun other heq => by cases heq; rfl) nofun
  | back _ => exact .idle (back_idle thread.cut).2.1 (back_idle thread.cut).2.2
  | detach _ | leave _ | close _ => exact .idle rfl nofun

/-- A frame that replaces nothing leaves the stores as they are. -/
theorem receive_of_kept {rt : Runtime} {stores stores' : Stores} {msg : PyVal}
    (hkept : replaces msg = .ok false) (h : receive rt stores msg = .ok stores') :
    stores' = stores := by
  obtain ⟨mtype, htype, hkept⟩ := bind_eq_ok.mp hkept
  obtain ⟨mtype', htype', h⟩ := bind_eq_ok.mp h
  obtain rfl := Except.ok.inj (htype.symm.trans htype')
  cases hconfig : mtype.eqStr "CONFIG_UPDATE" with
  | true =>
      rw [hconfig, if_pos rfl] at hkept h
      obtain ⟨raw, hraw, hkept⟩ := bind_eq_ok.mp hkept
      obtain ⟨raw', hraw', h⟩ := bind_eq_ok.mp h
      obtain rfl := Except.ok.inj (hraw.symm.trans hraw')
      rw [Except.ok.inj hkept, if_neg Bool.false_ne_true] at h
      exact (Except.ok.inj h).symm
  | false =>
      rw [hconfig, if_neg Bool.false_ne_true] at hkept h
      cases henforce : mtype.eqStr "ENFORCE_REQ" with
      | true =>
          rw [henforce, if_pos rfl] at hkept h
          obtain ⟨fresh, hfresh, hkept⟩ := bind_eq_ok.mp hkept
          obtain ⟨fresh', hfresh', h⟩ := bind_eq_ok.mp h
          obtain rfl := Except.ok.inj (hfresh.symm.trans hfresh')
          rw [Except.ok.inj hkept, if_neg Bool.false_ne_true] at h
          exact (Except.ok.inj h).symm
      | false =>
          rw [henforce, if_neg Bool.false_ne_true] at h
          exact (Except.ok.inj h).symm

theorem listen_spec {rt : Runtime} {world next : World} {msg : PyVal}
    (h : listen rt world msg = .ok next) :
    next.registry = world.registry ∧ next.threads = world.threads ∧
      (next.enforced = true → world.enforced = true ∧ next.stores = world.stores) := by
  obtain ⟨replaced, hreplaced, h⟩ := bind_eq_ok.mp h
  obtain ⟨enforcing, -, h⟩ := bind_eq_ok.mp h
  obtain ⟨stores, hstores, h⟩ := bind_eq_ok.mp h
  cases h
  refine ⟨rfl, rfl, fun henforced => ?_⟩
  cases replaced with
  | true => simp at henforced
  | false =>
      simp only [Bool.not_false, Bool.and_true] at henforced
      exact ⟨henforced, receive_of_kept hreplaced hstores⟩

theorem listen_of_step {rt : Runtime} {world next : World} {msg : PyVal}
    (h : step rt world (.deliver msg) = some next) : listen rt world msg = .ok next := by
  simp only [step] at h
  split at h
  · cases h
  · cases hlisten : listen rt world msg with
    | error e => simp [hlisten, Except.toOption] at h
    | ok settled =>
        rw [hlisten] at h
        cases h
        rfl

/-- Where its disconnections succeed, a pass cuts off whom it finds stale. -/
theorem cutOff_of_stale {rt : Runtime} {stores : Stores} {calls : String → SockCalls}
    {reg : Registry} {result : Enforcement}
    (h : killStale rt stores.userMap stores.cfg calls reg = .ok result)
    (hcalls : ∀ sid session verdict, (sid, session) ∈ reg.sessions.entries →
      check rt stores.userMap stores.cfg session = .ok verdict → verdict.stale = true →
      (calls sid).sendall = true ∧ (calls sid).shutdown = true)
    {sid : String} (hstale : sid ∈ result.stale) : cutOff result sid = true := by
  obtain ⟨found, hscan, hfound, -, -⟩ := killStale_spec h
  obtain ⟨session, verdict, hmem, hcheck, hverdict⟩ :=
    (scan_spec rt stores.userMap stores.cfg hscan sid).mp (hfound ▸ hstale)
  obtain ⟨sock, -, hdropped⟩ := Revocation.dropped_spec h hstale
  have hshut := (disconnect_shut_iff (calls sid) sock).mpr
    (.inr (hcalls sid session verdict hmem hcheck hverdict))
  unfold cutOff
  rw [List.any_eq_true]
  exact ⟨_, (hdropped _).mpr rfl, by simp [hshut]⟩

theorem registry_of_not_stale {rt : Runtime} {stores : Stores} {calls : String → SockCalls}
    {reg : Registry} {result : Enforcement}
    (h : killStale rt stores.userMap stores.cfg calls reg = .ok result) {sid : String}
    (hkept : sid ∉ result.stale) :
    result.registry.sessions.get? sid = reg.sessions.get? sid := by
  obtain ⟨found, -, hfound, hregistry, -⟩ := killStale_spec h
  rw [hregistry]
  exact (Dict.get?_eraseMany ..).trans (if_neg (hfound ▸ hkept))

/-- A session the pass leaves alone is not denied the console it is on file for. -/
theorem kept_not_denied {rt : Runtime} {stores : Stores} {calls : String → SockCalls}
    {reg : Registry} {result : Enforcement}
    (h : killStale rt stores.userMap stores.cfg calls reg = .ok result)
    {sid username : String} {pc : Pc} {cname : Word} (hkept : sid ∉ result.stale)
    (hfile : OnFile reg sid username pc) (hpc : pc.announcedOn = some cname) :
    ¬ Denies rt stores username cname := by
  rintro ⟨hexplicit, hrefuses⟩
  obtain ⟨session, hget, rfl, hconsole⟩ := hfile
  obtain ⟨verdict, hcheck, hiff⟩ := killStale_stale_iff h (Dict.get?_eq_some_iff.mp hget)
  have hstale :=
    (stale_iff_nameRefuses_of_explicit (hconsole cname hpc) hexplicit hcheck).mpr hrefuses
  exact hkept (hiff.mpr hstale)

theorem caught_killStale {rt : Runtime} {world : World} {calls : String → SockCalls}
    {result : Enforcement} (h : Caught rt world)
    (hguard : CatchesAll rt world (.killStale calls))
    (hkill : killStale rt world.stores.userMap world.stores.cfg calls world.registry =
      .ok result) :
    Caught rt { world with
      registry := result.registry
      threads := fun sid => (world.threads sid).map fun thread =>
        { thread with cut := thread.cut || cutOff result sid }
      enforcing := false
      enforced := true } := by
  obtain ⟨hcalls, hpending⟩ := hguard
  have hleft : ∀ sid thread, (world.threads sid).map (fun thread : Thread =>
      { thread with cut := thread.cut || cutOff result sid }) = some thread →
      thread.cut = false → sid ∉ result.stale ∧ ∃ old, world.threads sid = some old ∧
        old.cut = false ∧ old.username = thread.username ∧ old.pc = thread.pc := by
    intro sid thread hthread hcut
    obtain ⟨old, hold, rfl⟩ := Option.map_eq_some_iff.mp hthread
    rw [Bool.or_eq_false_iff] at hcut
    refine ⟨fun hstale => ?_, old, hold, hcut.1, rfl, rfl⟩
    rw [cutOff_of_stale hkill hcalls hstale] at hcut
    exact nomatch hcut.2
  constructor
  · intro sid thread hthread hcut hends
    obtain ⟨hkept, old, hold, holdCut, husername, hpc⟩ := hleft sid thread hthread hcut
    obtain ⟨session, hget, hfile⟩ := h.onFile sid old hold holdCut (hpc ▸ hends)
    rw [← registry_of_not_stale hkill hkept] at hget
    rw [← husername, ← hpc]
    exact ⟨session, hget, hfile⟩
  · intro _ sid thread hthread hcut
    obtain ⟨hkept, old, hold, holdCut, husername, hpc⟩ := hleft sid thread hthread hcut
    rw [← husername, ← hpc]
    cases hannounced : old.pc.announcedOn with
    | none => exact hpending sid old hold holdCut (by rw [hannounced]; rfl)
    | some cname =>
        have hends : old.pc ≠ .ended := by
          intro hends
          rw [hends] at hannounced
          cases hannounced
        have hnot := kept_not_denied hkill hkept (h.onFile sid old hold holdCut hends) hannounced
        obtain ⟨hbound, hreading⟩ := bound_of_announcedOn hannounced
        intro other hdenies
        refine ⟨fun hother => ?_, fun reads heq => absurd heq (hreading other reads)⟩
        rw [hbound, Option.some.injEq] at hother
        exact hnot (hother ▸ hdenies)

/-- One session and its entry change; the others are as they were. -/
theorem caught_update {rt : Runtime} {world : World} {reg : Registry} {sid : String}
    {thread : Thread} (h : Caught rt world)
    (hframe : ∀ other, other ≠ sid →
      reg.sessions.get? other = world.registry.sessions.get? other)
    (hfile : thread.cut = false → thread.pc ≠ .ended →
      OnFile reg sid thread.username thread.pc)
    (hheeds : world.enforced = true → thread.cut = false →
      Heeds rt world.stores thread.username thread.pc) :
    Caught rt { world with
      registry := reg
      threads := Function.update world.threads sid (some thread) } := by
  have hthreads : ∀ other found,
      Function.update world.threads sid (some thread) other = some found →
      other = sid ∧ found = thread ∨ other ≠ sid ∧ world.threads other = some found := by
    intro other found hfound
    rw [Function.update_apply] at hfound
    split at hfound
    · exact .inl ⟨‹_›, (Option.some.inj hfound).symm⟩
    · exact .inr ⟨‹_›, hfound⟩
  constructor
  · intro other found hfound hcut hends
    rcases hthreads other found hfound with ⟨rfl, rfl⟩ | ⟨hother, hfound⟩
    · exact hfile hcut hends
    · obtain ⟨session, hget, hconsole⟩ := h.onFile other found hfound hcut hends
      exact ⟨session, (hframe other hother).trans hget, hconsole⟩
  · intro henforced other found hfound hcut
    rcases hthreads other found hfound with ⟨rfl, rfl⟩ | ⟨hother, hfound⟩
    · exact hheeds henforced hcut
    · exact h.heeds henforced other found hfound hcut

theorem caught_act {rt : Runtime} {world : World} {sid : String} {thread : Thread} {act : Act}
    {moved : Pc × Registry} (h : Caught rt world) (hthread : world.threads sid = some thread)
    (hstep : sessionStep rt world.stores world.registry sid thread act = some moved) :
    Caught rt { world with
      registry := moved.2
      threads := Function.update world.threads sid (some { thread with pc := moved.1 }) } := by
  apply caught_update h
  · exact fun other hother => sessionStep_frame hstep hother
  · intro hcut hends
    have hfile : OnFile moved.2 sid thread.username moved.1 :=
      sessionStep_onFile (h.onFile sid thread hthread hcut (sessionStep_alive hstep)) hstep hends
    exact hfile
  · intro henforced hcut
    have hheeds : Heeds rt world.stores thread.username moved.1 :=
      sessionStep_heeds (h.heeds henforced sid thread hthread hcut) hstep
    exact hheeds

theorem caught_login {rt : Runtime} {world : World} {sid username : String}
    (h : Caught rt world) :
    Caught rt { world with
      registry := add world.registry sid username "prompt" ⟨false, false⟩ none false
      threads := Function.update world.threads sid (some ⟨username, .prompt, false⟩) } := by
  apply caught_update h
  · exact fun other hother => (Dict.get?_set ..).trans (if_neg hother)
  · exact fun _ _ => ⟨_, (Dict.get?_set ..).trans (if_pos rfl), rfl, nofun⟩
  · exact fun _ _ => .idle rfl nofun

theorem caught_deliver {rt : Runtime} {world next : World} {msg : PyVal} (h : Caught rt world)
    (hlisten : listen rt world msg = .ok next) : Caught rt next := by
  obtain ⟨hregistry, hthreads, hpolicy⟩ := listen_spec hlisten
  constructor
  · rw [hregistry, hthreads]
    exact h.onFile
  · intro henforced
    obtain ⟨hbefore, hstores⟩ := hpolicy henforced
    rw [hthreads, hstores]
    exact h.heeds hbefore

theorem caught_step {rt : Runtime} {world next : World} {event : Event} (h : Caught rt world)
    (hguard : CatchesAll rt world event) (hstep : step rt world event = some next) :
    Caught rt next := by
  cases event with
  | login sid username =>
      simp only [step] at hstep
      split at hstep <;> cases hstep
      exact caught_login h
  | act sid act =>
      simp only [step] at hstep
      obtain ⟨thread, hthread, hstep⟩ := Option.bind_eq_some_iff.mp hstep
      obtain ⟨moved, hmoved, hstep⟩ := Option.bind_eq_some_iff.mp hstep
      cases hstep
      exact caught_act h hthread hmoved
  | deliver msg => exact caught_deliver h (listen_of_step hstep)
  | killStale calls =>
      simp only [step] at hstep
      split at hstep
      · cases hstep
      · split at hstep <;> cases hstep
        exact caught_killStale h hguard ‹_›

/-- No step but a reading for its own decision puts a session on course. -/
theorem sessionStep_bound {rt : Runtime} {stores : Stores} {reg : Registry} {sid : String}
    {thread : Thread} {act : Act} {moved : Pc × Registry} {cname : Word}
    (hstep : sessionStep rt stores reg sid thread act = some moved)
    (hlook : ∀ hubLive, act ≠ .look hubLive) (hbound : moved.1.bound = some cname) :
    thread.pc.bound = some cname := by
  cases moves_of_sessionStep hstep with
  | look _ => exact absurd rfl (hlook _)
  | seekHub hpc =>
      rw [hpc, afterSeek_bound hbound]
      rfl
  | @spawned ok _ _ hpc =>
      cases ok with
      | false => cases hbound
      | true => exact (congrArg Pc.bound hpc).trans hbound
  | announce hpc | attach hpc | confirm hpc => exact (congrArg Pc.bound hpc).trans hbound
  | back _ => exact nomatch (back_idle thread.cut).2.1.symm.trans hbound
  | command _ | detach _ | leave _ | close _ => cases hbound

theorem step_bound {rt : Runtime} {world next : World} {event : Event} {sid : String}
    {thread : Thread} {cname : Word} (hthread : world.threads sid = some thread)
    (hbound : thread.pc.bound ≠ some cname) (hlook : ∀ hubLive, event ≠ .act sid (.look hubLive))
    (hstep : step rt world event = some next) :
    ∃ thread', next.threads sid = some thread' ∧ thread'.pc.bound ≠ some cname := by
  cases event with
  | login other username =>
      simp only [step] at hstep
      split at hstep <;> cases hstep
      rename_i hfree
      have hother : sid ≠ other := fun heq => by
        rw [← heq, hthread] at hfree
        cases hfree
      exact ⟨thread, (Function.update_of_ne hother ..).trans hthread, hbound⟩
  | act other act =>
      simp only [step] at hstep
      obtain ⟨thread', hthread', hstep⟩ := Option.bind_eq_some_iff.mp hstep
      obtain ⟨moved, hmoved, hstep⟩ := Option.bind_eq_some_iff.mp hstep
      cases hstep
      by_cases hother : sid = other
      · subst hother
        cases Option.some.inj (hthread'.symm.trans hthread)
        exact ⟨_, Function.update_self .., fun hmovedBound =>
          hbound (sessionStep_bound hmoved (fun hubLive heq => hlook hubLive (heq ▸ rfl))
            hmovedBound)⟩
      · exact ⟨thread, (Function.update_of_ne hother ..).trans hthread, hbound⟩
  | deliver msg =>
      rw [(listen_spec (listen_of_step hstep)).2.1]
      exact ⟨thread, hthread, hbound⟩
  | killStale calls =>
      simp only [step] at hstep
      split at hstep
      · cases hstep
      · split at hstep <;> cases hstep
        exact ⟨_, Option.map_eq_some_iff.mpr ⟨thread, hthread, rfl⟩, hbound⟩

theorem bound_of_goesOn {rt : Runtime} {world : World} {sid : String} {thread : Thread}
    {cname : Word} (hthread : world.threads sid = some thread)
    (h : GoesOnToAttach rt world sid cname) : thread.pc.bound = some cname := by
  obtain ⟨events, finish, last, hrun, hlook, hlast, hattached⟩ := h
  induction hrun generalizing thread with
  | nil world =>
      rw [hthread] at hlast
      cases hlast
      rw [hattached]
      rfl
  | @cons start next finish event events hstep hrest ih =>
      by_contra hbound
      obtain ⟨thread', hthread', hbound'⟩ := step_bound hthread hbound
        (fun hubLive heq => hlook hubLive (heq ▸ List.mem_cons_self ..)) hstep
      exact hbound' (ih hthread' (fun hubLive hmem =>
        hlook hubLive (List.mem_cons_of_mem _ hmem)) hlast)

/-- Enforcement passes that catch every session on its way are not outrun. -/
theorem notOutrun_of_catchesAll {rt : Runtime} {stores : Stores} {events : List Event}
    {finish : World} (hrun : GuardedRun (step rt) (CatchesAll rt) (.start stores) events finish) :
    NotOutrun rt finish := by
  have hstart : Caught rt (.start stores) :=
    ⟨(fun sid thread hthread => nomatch hthread), (fun henforced => nomatch henforced)⟩
  have hcaught := hrun.invariant
    (fun world event next h hguard hstep => caught_step h hguard hstep) hstart
  intro henforced sid thread cname hthread hdenies hgoes
  cases hcut : thread.cut with
  | true => rfl
  | false =>
      have hheeds := hcaught.heeds henforced sid thread hthread hcut
      exact absurd (bound_of_goesOn hthread hgoes) (hheeds cname hdenies).1

def lab : Word := ⟨"lab02", by decide⟩

def outsiders : PyVal := .ofFields [
  ("users", .ofFields [("bob", .ofFields [("groups", .list [.str "former"])])])]

def toDecision : List Event :=
  [.login "s1" "bob", .act "s1" (.command lab), .act "s1" (.look true), .act "s1" (.look true),
    .act "s1" (.look true)]

def toAttach : List Event :=
  [.act "s1" (.seekHub true), .act "s1" .announce, .act "s1" .attach]

def revocation : List Event := [.deliver (enforceReq outsiders), .killStale calm]

theorem denies_bob : Denies .plain ⟨outsiders, watchedLab⟩ "bob" lab :=
  ⟨⟨_, rfl, rfl⟩, .inr ⟨_, rfl, rfl⟩⟩

theorem notOutrun_of_catchesAll_bob :
    ∃ finish, GuardedRun (step .plain) (CatchesAll .plain) (.start ⟨watchers, watchedLab⟩)
        (toDecision ++ toAttach ++ revocation) finish ∧
      finish.enforced = true ∧ (finish.threads "s1").map Thread.cut = some true ∧
      NotOutrun .plain finish := by
  have hcatches : ∃ finish, GuardedRun (step .plain) (CatchesAll .plain)
      (.start ⟨watchers, watchedLab⟩) (toDecision ++ toAttach ++ revocation) finish ∧
        finish.enforced = true ∧ (finish.threads "s1").map Thread.cut = some true := by
    refine ⟨_, .cons trivial rfl (.cons trivial rfl (.cons trivial rfl (.cons trivial rfl
      (.cons trivial rfl (.cons trivial rfl (.cons trivial rfl (.cons trivial rfl
      (.cons trivial rfl (.cons ⟨fun _ _ _ _ _ _ => ⟨rfl, rfl⟩, ?_⟩ rfl (.nil _)))))))))),
      rfl, rfl⟩
    intro sid thread hthread _ hquiet
    by_cases hsid : sid = "s1"
    · subst hsid
      cases hthread
      cases hquiet
    · simp [Function.update_of_ne hsid, World.start] at hthread
  obtain ⟨finish, hrun, henforced, hcut⟩ := hcatches
  exact ⟨finish, hrun, henforced, hcut, notOutrun_of_catchesAll hrun⟩

/-- The pass comes between the decision and the announcement: the registry still
has the session at its prompt. -/
theorem attach_outruns_killStale :
    ∃ finish, Run (step .plain) (.start ⟨watchers, watchedLab⟩)
        (toDecision ++ revocation ++ toAttach) finish ∧
      finish.enforced = true ∧
      finish.threads "s1" = some ⟨"bob", .attached lab, false⟩ ∧
      Denies .plain finish.stores "bob" lab ∧ ¬ NotOutrun .plain finish := by
  refine ⟨_, run_of_exec rfl, rfl, rfl, denies_bob, fun h => ?_⟩
  exact nomatch h rfl "s1" _ lab rfl denies_bob ⟨[], _, _, .nil _, nofun, rfl, rfl⟩

end Vnctlsd.AttachRace
