import Mathlib.Tactic.SplitIfs
import Vnctlsd.ConfigReads
import Vnctlsd.Library.Transition
import Vnctlsd.Monitor.Replication
import Vnctlsd.Session.Enforcement
import Vnctlsd.Worker.Disappearance

/-! The worker's push listener: one loop for the messages of both sockets, whichever
they come from.  An exception that no handler catches ends the thread, and a lock,
a send or a connect that never comes through holds it up for good: either way nobody
answers an ENFORCE_REQ any more.  The log, the user database and the locks of the two
stores, which are held for a moment only, are taken to answer. -/
namespace Vnctlsd.Worker.PushLoop
open Vnctlsd.Library.Transition Vnctlsd.Python ConsoleConfigStore Validation SessionRegistry
open Enforcement PushListener Disappearance ConfigReads
open Monitor.Replication (Stores receive)

inductive Kind where
  | sessionListReq
  | configUpdate
  | enforceReq
  | socketAppeared
  | socketDisappeared
  | unknown
  deriving DecidableEq

def Kind.of (mtype : PyVal) : Kind :=
  if mtype.eqStr "SESSION_LIST_REQ" then .sessionListReq
  else if mtype.eqStr "CONFIG_UPDATE" then .configUpdate
  else if mtype.eqStr "ENFORCE_REQ" then .enforceReq
  else if mtype.eqStr "SOCKET_APPEARED" then .socketAppeared
  else if mtype.eqStr "SOCKET_DISAPPEARED" then .socketDisappeared
  else .unknown

/-- What the interpreter takes.  `encodes` is whether the encoding of the file system
has a text: a Python string may hold lone surrogates, which none has, and such a string
is here one that `encodes` refuses.  The others are whether `copy.deepcopy`, `repr` and
`str.format` get by with the recursion depth and the memory there are. -/
structure Limits where
  encodes : String → Bool
  copies : PyVal → Bool
  prints : PyVal → Bool
  formats : PyVal → PyVal → Bool

/-- What the loop may wait for: the locks of the registries and of the hubs, which a
thread may hold while it sends to a client, and its own sends and connects. -/
inductive Wait where
  | sessions
  | hubs
  | eachHub
  | connect (path : String)
  | client (sid : String)
  | push
  deriving DecidableEq

/-- What goes out on the push socket. -/
inductive Reply where
  | sessionListResp (sessions : List Session) (hubs : LiveHubs)
  | enforceResp (killed retained : List String)

/-- The listener and what it shares with the worker's other threads. -/
structure World where
  stores : Stores
  registry : Registry
  live : LiveHubs
  replies : List Reply
  listening : Bool

/-- A JSON object, and what the system calls made for it answer; `stuck` says which
waits never end. -/
structure Arrival where
  msg : List (Key × PyVal)
  passwd : Passwd
  fs : FileSystem
  connect : Connect
  calls : String → SockCalls
  stuck : Wait → Bool

def World.stopped (world : World) : World := { world with listening := false }

def setLive (live : LiveHubs) (name : Key) (isLive : Bool) : LiveHubs :=
  fun key => if key = name then isLive else live key

def field (msg : List (Key × PyVal)) (key : String) (default : PyVal) : PyVal :=
  (msg.lookup (.str key)).getD default

def kind (msg : List (Key × PyVal)) : Kind := .of (field msg "type" .none)

def filed (world : World) : Appeared → World
  | .created _ name _ => { world with live := setLive world.live name true }
  | _ => world

/-- The user map in force when the message is an ENFORCE_REQ. -/
def mapAfter (stores : Stores) (msg : List (Key × PyVal)) : PyVal :=
  if (field msg "user_map" .none).truthy then field msg "user_map" .none else stores.userMap

/-- `os.lstat` gets a text it can encode. -/
def pathWithin (limits : Limits) : PyVal → Bool
  | .str path => limits.encodes path
  | _ => true

/-- So does `getpwnam`, which is reached unless the setting in force is blank. -/
def ownerWithin (limits : Limits) (rt : Runtime) (cfg defn vars : PyVal) : Bool :=
  match TrustedUid.settingInForce cfg defn with
  | .error _ => true
  | .ok setting => !setting.truthy || (limits.formats setting vars &&
      match onKeyError (Format.formatStar rt setting vars) (rt.str setting) with
      | .error _ => true
      | .ok name => limits.encodes name)

def nameWithin (limits : Limits) (cfg path : PyVal) : Bool :=
  match matchSocket cfg path with
  | .ok (some (defn, vars)) =>
      match defn.get "console_name" (.str "") with
      | .ok template => limits.formats template vars
      | .error _ => true
  | _ => true

/-- The interpreter takes what the branch gives it: the pushed configuration to copy,
the texts for the system, the templates to fill in, and the type of an unknown
message for the log. -/
def within (limits : Limits) (rt : Runtime) (world : World) (msg : List (Key × PyVal)) :
    Kind → Bool
  | .sessionListReq | .enforceReq => true
  | .configUpdate => !(field msg "console_config" .none).truthy ||
      limits.copies (field msg "console_config" .none)
  | .socketAppeared => pathWithin limits (field msg "path" (.str "")) &&
      ownerWithin limits rt world.stores.cfg (field msg "defn" .emptyDict)
        (field msg "vars" .emptyDict)
  | .socketDisappeared => nameWithin limits world.stores.cfg (field msg "path" (.str ""))
  | .unknown => limits.prints (field msg "type" .none)

def pathText (msg : List (Key × PyVal)) : String :=
  match field msg "path" (.str "") with
  | .str path => path
  | _ => ""

/-- What the branch waits for, one after another. -/
def waits (rt : Runtime) (world : World) (arrival : Arrival) : Kind → List Wait
  | .sessionListReq => [.sessions, .hubs, .eachHub, .push]
  | .enforceReq =>
      match killStale rt (mapAfter world.stores arrival.msg) world.stores.cfg arrival.calls
          world.registry with
      | .error _ => [.sessions]
      | .ok result => .sessions :: result.stale.map .client ++ [.push]
  | .socketAppeared =>
      match socketAppeared rt arrival.passwd arrival.fs arrival.connect world.live
          world.stores.cfg (.dict arrival.msg) with
      | .error _ | .ok (.rejected _) | .ok .ignored => []
      | .ok .failed => [.connect (pathText arrival.msg)]
      | .ok (.unregistered _ _) | .ok (.existing _ _) | .ok (.created _ _ _) =>
          [.connect (pathText arrival.msg), .hubs]
  | .socketDisappeared =>
      match disappearedName rt world.stores.cfg (field arrival.msg "path" (.str "")) with
      | .ok (some _) => [.hubs]
      | .error _ | .ok none => []
  | .configUpdate | .unknown => []

/-- The branches of the loop, once `receive` has put the stores right. -/
def dispatch (rt : Runtime) (world : World) (arrival : Arrival) : Kind → World
  | .sessionListReq => { world with
      replies := world.replies ++
        [.sessionListResp (world.registry.sessions.entries.map Prod.snd) world.live] }
  | .enforceReq =>
      match killStale rt world.stores.userMap world.stores.cfg arrival.calls world.registry with
      | .error _ => world.stopped
      | .ok result => { world with
          registry := result.registry
          replies := world.replies ++ [.enforceResp result.killed result.retained] }
  | .socketAppeared =>
      match socketAppeared rt arrival.passwd arrival.fs arrival.connect world.live
          world.stores.cfg (.dict arrival.msg) with
      | .error _ => world.stopped
      | .ok outcome => filed world outcome
  | .socketDisappeared =>
      match socketDisappeared rt world.live world.stores.cfg (.dict arrival.msg) with
      | .error _ => world.stopped
      | .ok none => world
      | .ok (some name) => { world with live := setLive world.live name false }
  | .configUpdate | .unknown => world

/-- A handler that is held up half way is not followed any further. -/
def handle (limits : Limits) (rt : Runtime) (world : World) (arrival : Arrival) : World :=
  if within limits rt world arrival.msg (kind arrival.msg) then
    match receive rt world.stores (.dict arrival.msg) with
    | .error _ => world.stopped
    | .ok stores =>
        if (waits rt world arrival (kind arrival.msg)).any arrival.stuck then
          { world with stores }.stopped
        else dispatch rt { world with stores } arrival (kind arrival.msg)
  else world.stopped

/-- `others` is what the worker's other threads do to the sessions and the hubs. -/
inductive Event where
  | arrive (arrival : Arrival)
  | others (registry : Registry) (live : LiveHubs)

def eventStep (limits : Limits) (rt : Runtime) (world : World) : Event → World
  | .arrive arrival => handle limits rt world arrival
  | .others registry live => { world with registry, live }

def step (limits : Limits) (rt : Runtime) (world : World) (event : Event) : Option World :=
  if world.listening then some (eventStep limits rt world event) else none

/-- The console name of a definition that the search finds can be filled in, or lacks
a field. -/
def NameReads (rt : Runtime) (cfg path : PyVal) : Prop :=
  ∀ defn vars, matchSocket cfg path = .ok (some (defn, vars)) →
    ∃ template text, defn.get "console_name" (.str "") = .ok template ∧
      onKeyError (Format.formatStar rt template vars) (rt.str template) = .ok text

/-- What a message must be like where it arrives. -/
def HarmlessMessage (rt : Runtime) (world : World) (msg : List (Key × PyVal)) : Kind → Prop
  | .sessionListReq | .unknown => True
  | .configUpdate => (field msg "console_config" .none).truthy = true →
      Compiles rt (field msg "console_config" .none)
  | .enforceReq =>
      ChecksReturn rt (mapAfter world.stores msg) world.stores.cfg world.registry
  | .socketAppeared => PathReads (field msg "path" (.str "")) ∧
      OwnerReads rt world.stores.cfg (field msg "defn" .emptyDict) (field msg "vars" .emptyDict)
  | .socketDisappeared => SearchReads world.stores.cfg (field msg "path" (.str "")) ∧
      NameReads rt world.stores.cfg (field msg "path" (.str ""))

def Unhindered (arrival : Arrival) (awaited : List Wait) : Prop :=
  ∀ wait ∈ awaited, arrival.stuck wait = false

/-- A harmless message that the interpreter takes and that nothing holds up. -/
def Harmless (limits : Limits) (rt : Runtime) (world : World) : Event → Prop
  | .arrive arrival => within limits rt world arrival.msg (kind arrival.msg) = true ∧
      HarmlessMessage rt world arrival.msg (kind arrival.msg) ∧
      Unhindered arrival (waits rt world arrival (kind arrival.msg))
  | .others _ _ => True

/-- The request is applied, with the user map it carries, and answered once. -/
def EnforcedOnce (limits : Limits) (rt : Runtime) (world : World) (request : Arrival) : Prop :=
  ∃ result, killStale rt (mapAfter world.stores request.msg) world.stores.cfg request.calls
      world.registry = .ok result ∧
    step limits rt world (.arrive request) = some { world with
      stores := ⟨mapAfter world.stores request.msg, world.stores.cfg⟩
      registry := result.registry
      replies := world.replies ++ [.enforceResp result.killed result.retained] }

variable {limits : Limits} {rt : Runtime} {world : World}

theorem eqStr_eq_false {value : PyVal} {text : String} (h : value ≠ .str text) :
    value.eqStr text = false := by
  cases value with
  | str s => simpa [PyVal.eqStr] using h
  | none | bool | int | float | list | dict | pattern | date => rfl

/-- What a message does to the stores, by its kind. -/
theorem receive_eq (rt : Runtime) (stores : Stores) (msg : List (Key × PyVal)) :
    receive rt stores (.dict msg) = match kind msg with
      | .configUpdate =>
          if (field msg "console_config" .none).truthy then
            (update rt (field msg "console_config" .none)).map fun cfg => { stores with cfg }
          else .ok stores
      | .enforceReq => .ok { stores with userMap := mapAfter stores msg }
      | _ => .ok stores := by
  have htype : (PyVal.dict msg).get "type" .none = .ok (field msg "type" .none) := rfl
  have hconfig : (PyVal.dict msg).get "console_config" .none =
      .ok (field msg "console_config" .none) := rfl
  have hmap : (PyVal.dict msg).get "user_map" .none = .ok (field msg "user_map" .none) := rfl
  simp only [receive, htype, hconfig, hmap, kind, mapAfter, bind, Except.bind, pure, Except.pure]
  generalize field msg "type" .none = mtype
  by_cases hupdate : mtype = .str "CONFIG_UPDATE"
  · subst hupdate
    cases update rt (field msg "console_config" .none) <;> rfl
  by_cases hreq : mtype = .str "ENFORCE_REQ"
  · subst hreq
    cases (field msg "user_map" .none).truthy <;> rfl
  · rw [Kind.of, eqStr_eq_false hupdate, eqStr_eq_false hreq]
    simp only [Bool.false_eq_true, if_false]
    split_ifs <;> rfl

theorem bind_get (msg : List (Key × PyVal)) (key : String) (default : PyVal)
    (next : PyVal → Py α) :
    ((PyVal.dict msg).get key default >>= next) = next (field msg key default) := rfl

theorem workerValidateSocket_returns_iff (passwd : Passwd) (fs : FileSystem)
    {cfg path defn vars : PyVal} :
    (∃ verdict, workerValidateSocket rt passwd fs cfg path defn vars = .ok verdict) ↔
      PathReads path ∧ OwnerReads rt cfg defn vars := by
  have howner := @resolveTrustedUid_returns_iff rt passwd cfg defn vars
  rw [← howner]
  constructor
  · rintro ⟨verdict, h⟩
    obtain ⟨uid, huid, hverdict⟩ := bind_eq_ok.mp h
    exact ⟨validateSocket_returns_iff.mp ⟨verdict, hverdict⟩, uid, huid⟩
  · rintro ⟨hpath, uid, huid⟩
    obtain ⟨verdict, hverdict⟩ : ∃ verdict, validateSocket fs path uid = .ok verdict :=
      validateSocket_returns_iff.mpr hpath
    exact ⟨verdict, bind_eq_ok.mpr ⟨uid, huid, hverdict⟩⟩

theorem dict_of_ownerReads {cfg defn vars : PyVal} (h : OwnerReads rt cfg defn vars) :
    ∃ entries, defn = .dict entries := by
  obtain ⟨value, hvalue⟩ : ∃ value, TrustedUid.settingInForce cfg defn = .ok value := by
    rcases h with ⟨value, hvalue, -⟩ | ⟨name, ⟨value, hvalue, -⟩, -⟩ <;> exact ⟨value, hvalue⟩
  obtain ⟨standIn, -, hown⟩ := bind_eq_ok.mp hvalue
  obtain ⟨validation, hvalidation, -⟩ := bind_eq_ok.mp hown
  exact PyVal.eq_dict_of_get_ok hvalidation

theorem socketAppeared_returns_iff (passwd : Passwd) (fs : FileSystem) (connect : Connect)
    (live : LiveHubs) {cfg : PyVal} {msg : List (Key × PyVal)} :
    (∃ outcome, socketAppeared rt passwd fs connect live cfg (.dict msg) = .ok outcome) ↔
      PathReads (field msg "path" (.str "")) ∧
        OwnerReads rt cfg (field msg "defn" .emptyDict) (field msg "vars" .emptyDict) := by
  simp only [socketAppeared, bind_get]
  constructor
  · rintro ⟨outcome, h⟩
    obtain ⟨verdict, hverdict, -⟩ := bind_eq_ok.mp h
    exact (workerValidateSocket_returns_iff passwd fs).mp ⟨verdict, hverdict⟩
  · intro h
    obtain ⟨verdict, hverdict⟩ := (workerValidateSocket_returns_iff passwd fs).mpr h
    obtain ⟨entries, hdefn⟩ := dict_of_ownerReads h.2
    cases verdict with
    | some err => exact ⟨_, bind_eq_ok.mpr ⟨_, hverdict, rfl⟩⟩
    | none =>
        rw [hverdict, hdefn]
        exact ⟨_, rfl⟩

theorem disappearedName_returns_iff {cfg path : PyVal} :
    (∃ name, disappearedName rt cfg path = .ok name) ↔
      SearchReads cfg path ∧ NameReads rt cfg path := by
  rw [← matchSocket_returns_iff]
  constructor
  · rintro ⟨name, h⟩
    obtain ⟨found, hfound, h⟩ := bind_eq_ok.mp h
    refine ⟨⟨found, hfound⟩, fun defn vars hsome => ?_⟩
    rw [hsome] at hfound
    cases hfound
    obtain ⟨template, htemplate, h⟩ := bind_eq_ok.mp h
    obtain ⟨text, htext, -⟩ := bind_eq_ok.mp h
    exact ⟨template, text, htemplate, htext⟩
  · rintro ⟨⟨found, hfound⟩, hname⟩
    cases found with
    | none => exact ⟨none, bind_eq_ok.mpr ⟨_, hfound, rfl⟩⟩
    | some found =>
        obtain ⟨template, text, htemplate, htext⟩ := hname found.1 found.2 hfound
        exact ⟨some text, bind_eq_ok.mpr ⟨_, hfound, bind_eq_ok.mpr ⟨_, htemplate,
          bind_eq_ok.mpr ⟨_, htext, rfl⟩⟩⟩⟩

theorem socketDisappeared_returns_iff (live : LiveHubs) {cfg : PyVal}
    {msg : List (Key × PyVal)} :
    (∃ gone, socketDisappeared rt live cfg (.dict msg) = .ok gone) ↔
      SearchReads cfg (field msg "path" (.str "")) ∧
        NameReads rt cfg (field msg "path" (.str "")) := by
  rw [← disappearedName_returns_iff]
  simp only [socketDisappeared, bind_get]
  constructor
  · rintro ⟨gone, h⟩
    obtain ⟨name, hname, -⟩ := bind_eq_ok.mp h
    exact ⟨name, hname⟩
  · rintro ⟨name, hname⟩
    cases name <;> exact ⟨_, bind_eq_ok.mpr ⟨_, hname, rfl⟩⟩

theorem filed_listening (outcome : Appeared) :
    (filed world outcome).listening = world.listening := by
  cases outcome <;> rfl

theorem stopped_listening (world : World) : world.stopped.listening ≠ true := Bool.false_ne_true

theorem unhindered_iff {arrival : Arrival} {awaited : List Wait} :
    awaited.any arrival.stuck = false ↔ Unhindered arrival awaited := by
  rw [List.any_eq_false]
  exact forall₂_congr fun _ _ => Bool.not_eq_true _ ▸ Iff.rfl

/-- The branch goes through, apart from what it waits for, exactly on a harmless
message. -/
theorem dispatch_listening_iff (hon : world.listening = true) (arrival : Arrival) :
    (∃ stores, receive rt world.stores (.dict arrival.msg) = .ok stores ∧
      (dispatch rt { world with stores } arrival (kind arrival.msg)).listening = true) ↔
        HarmlessMessage rt world arrival.msg (kind arrival.msg) := by
  rw [receive_eq]
  cases hkind : kind arrival.msg with
  | sessionListReq => exact iff_of_true ⟨_, rfl, hon⟩ trivial
  | unknown => exact iff_of_true ⟨_, rfl, hon⟩ trivial
  | configUpdate =>
      simp only [HarmlessMessage, ← update_returns_iff]
      cases (field arrival.msg "console_config" .none).truthy with
      | false => exact iff_of_true ⟨_, rfl, hon⟩ fun h => (by cases h)
      | true =>
          cases hupdate : update rt (field arrival.msg "console_config" .none) with
          | error e =>
              refine iff_of_false ?_ fun h => (by simpa using h rfl)
              rintro ⟨stores, hstores, -⟩
              cases hstores
          | ok cfg => exact iff_of_true ⟨_, rfl, hon⟩ fun _ => ⟨cfg, rfl⟩
  | enforceReq =>
      simp only [dispatch, HarmlessMessage, ← killStale_returns_iff rt _ _ arrival.calls,
        Except.ok.injEq, exists_eq_left']
      cases killStale rt (mapAfter world.stores arrival.msg) world.stores.cfg arrival.calls
          world.registry with
      | error e => exact iff_of_false (stopped_listening _) fun ⟨_, h⟩ => (by cases h)
      | ok result => exact iff_of_true hon ⟨result, rfl⟩
  | socketAppeared =>
      rw [HarmlessMessage, ← socketAppeared_returns_iff arrival.passwd arrival.fs arrival.connect
        world.live]
      simp only [dispatch, Except.ok.injEq, exists_eq_left']
      cases socketAppeared rt arrival.passwd arrival.fs arrival.connect world.live
          world.stores.cfg (.dict arrival.msg) with
      | error e => exact iff_of_false (stopped_listening _) fun ⟨_, h⟩ => (by cases h)
      | ok outcome => exact iff_of_true ((filed_listening outcome).trans hon) ⟨outcome, rfl⟩
  | socketDisappeared =>
      rw [HarmlessMessage, ← socketDisappeared_returns_iff world.live]
      simp only [dispatch, Except.ok.injEq, exists_eq_left']
      cases socketDisappeared rt world.live world.stores.cfg (.dict arrival.msg) with
      | error e => exact iff_of_false (stopped_listening _) fun ⟨_, h⟩ => (by cases h)
      | ok gone => cases gone <;> exact iff_of_true hon ⟨_, rfl⟩

theorem handle_listening_iff (hon : world.listening = true) (arrival : Arrival) :
    (handle limits rt world arrival).listening = true ↔
      Harmless limits rt world (.arrive arrival) := by
  rw [handle, Harmless, ← dispatch_listening_iff hon, ← unhindered_iff]
  cases within limits rt world arrival.msg (kind arrival.msg) with
  | false => exact iff_of_false (stopped_listening _) fun h => Bool.false_ne_true h.1
  | true =>
      rw [if_pos rfl]
      cases receive rt world.stores (.dict arrival.msg) with
      | error e =>
          refine iff_of_false (stopped_listening _) ?_
          rintro ⟨-, ⟨stores, hstores, -⟩, -⟩
          cases hstores
      | ok stores =>
          simp only [Except.ok.injEq, exists_eq_left', true_and]
          cases (waits rt world arrival (kind arrival.msg)).any arrival.stuck with
          | false => simp
          | true => simpa using stopped_listening { world with stores }

theorem step_listening {event : Event} {next : World}
    (h : step limits rt world event = some next) :
    world.listening = true ∧ eventStep limits rt world event = next := by
  rw [step] at h
  split_ifs at h with hon
  exact ⟨hon, Option.some.inj h⟩

theorem step_listening_iff {event : Event} {next : World}
    (h : step limits rt world event = some next) :
    next.listening = true ↔ Harmless limits rt world event := by
  obtain ⟨hon, rfl⟩ := step_listening h
  cases event with
  | arrive arrival => exact handle_listening_iff hon arrival
  | others registry live => exact iff_of_true hon trivial

theorem listening_iff {start finish : World} {events : List Event}
    (hstart : start.listening = true) (hrun : Run (step limits rt) start events finish) :
    finish.listening = true ↔
      GuardedRun (step limits rt) (Harmless limits rt) start events finish := by
  have hon : ∀ world event next, step limits rt world event = some next →
      world.listening = true := fun _ _ _ hstep => (step_listening hstep).1
  have hharmless : ∀ world event next, step limits rt world event = some next →
      (next.listening = true ↔ Harmless limits rt world event) :=
    fun _ _ _ => step_listening_iff
  exact hrun.on_iff_guarded hon hharmless hstart

theorem enforcedOnce_iff {request : Arrival} (hkind : kind request.msg = .enforceReq) :
    EnforcedOnce limits rt world request ↔
      world.listening = true ∧ Harmless limits rt world (.arrive request) := by
  constructor
  · rintro ⟨result, hresult, hstep⟩
    have hon := (step_listening hstep).1
    exact ⟨hon, (step_listening_iff hstep).mp hon⟩
  · rintro ⟨hon, hwithin, hharmless, hunhindered⟩
    rw [hkind, HarmlessMessage, ← killStale_returns_iff rt _ _ request.calls] at hharmless
    obtain ⟨result, hresult⟩ := hharmless
    refine ⟨result, hresult, ?_⟩
    rw [step, if_pos hon, eventStep, handle, if_pos hwithin, receive_eq,
      unhindered_iff.mpr hunhindered, hkind]
    simp only [dispatch, hresult, Bool.false_eq_true, if_false]

def quiet : World := ⟨⟨.emptyDict, .emptyDict⟩, .empty, fun _ => false, [], true⟩

/-- Enough for what follows. -/
def ample : Limits := ⟨fun _ => true, fun _ => true, fun _ => true, fun _ _ => true⟩

def message (fields : List (String × PyVal)) : Arrival where
  msg := fields.map fun field => (.str field.1, field.2)
  passwd := qemuPasswd
  fs := labSockets
  connect := fun _ => some 7
  calls := fun _ => ⟨true, true, true⟩
  stuck := fun _ => false

def enforce : Arrival := message [("type", .str "ENFORCE_REQ")]

def appeared (path : PyVal) : List Event :=
  [.arrive (message [("type", .str "SOCKET_APPEARED"), ("path", path),
    ("console_name", .str "lab01"), ("defn", .ofFields [("type", .str "qemu_unix")])])]

end Vnctlsd.Worker.PushLoop
