import Vnctlsd.ConfigPush
import Vnctlsd.Library.Replica
import Vnctlsd.Library.Transition
import Vnctlsd.UserMapStore

/-! The worker's copies of the user map and the console configuration.  The
monitor reloads both stores on SIGHUP and on SIGUSR2 and pushes what it has; the
worker takes the frames off the socket one after another.  A signal that comes while
a handler runs has its own handler run at once, inside that one. -/
namespace Vnctlsd.Monitor.Replication
open Vnctlsd.Library.Transition Vnctlsd.Library.Replica Vnctlsd.Python
open ConsoleConfigStore UserMapStore ConfigPush

structure Stores where
  userMap : PyVal
  cfg : PyVal

/-- What parsing the two files gives. -/
structure Files where
  users : Py PyVal
  consoles : Py PyVal

/-- The signals whose handlers reload both files. -/
inductive Signal where
  | sighup
  | sigusr2
  deriving DecidableEq

/-- Where such a handler has got to, with what it has in hand there. -/
inductive Point where
  | readUsers
  | storeUsers (loaded : Py PyVal)
  | readConsoles
  | storeConsoles (loaded : Py PyVal)
  | strip
  | pushConfig (raw : PyVal)
  | copyMap
  | pushMap (copy : PyVal)

structure Handler where
  signal : Signal
  point : Point

/-- The handlers that run, the innermost first. -/
structure MonitorState where
  stores : Stores
  handlers : List Handler

def configUpdate (raw : PyVal) : PyVal :=
  .ofFields [("type", .str "CONFIG_UPDATE"), ("console_config", raw)]

def enforceReq (userMap : PyVal) : PyVal :=
  .ofFields [("type", .str "ENFORCE_REQ"), ("user_map", userMap)]

def sessionListReq : PyVal := .ofFields [("type", .str "SESSION_LIST_REQ")]

/-- The worker's answer to a frame, as far as its stores are concerned. -/
def receive (rt : Runtime) (stores : Stores) (msg : PyVal) : Py Stores := do
  let mtype ← msg.get "type" .none
  if mtype.eqStr "CONFIG_UPDATE" then do
    let raw ← msg.get "console_config" .none
    if raw.truthy then do
      let cfg ← update rt raw
      pure { stores with cfg }
    else pure stores
  else if mtype.eqStr "ENFORCE_REQ" then do
    let freshMap ← msg.get "user_map" .none
    pure (if freshMap.truthy then { stores with userMap := freshMap } else stores)
  else pure stores

/-- What the recursions of `get_raw` and of `deepcopy` take within the interpreter's
limit. -/
structure Depth where
  strips : PyVal → Bool
  copies : PyVal → Bool

def recursionError : PyExc := ⟨.runtimeError, "maximum recursion depth exceeded"⟩

/-- A configuration too deep for `deepcopy` ends the worker's listener. -/
def receiveWithin (rt : Runtime) (depth : Depth) (stores : Stores) (msg : PyVal) :
    Py Stores := do
  let mtype ← msg.get "type" .none
  let raw ← msg.get "console_config" .none
  if mtype.eqStr "CONFIG_UPDATE" && raw.truthy && !depth.copies raw then .error recursionError
  else receive rt stores msg

/-- `json.loads(json.dumps(msg))`: what arrives of a message. -/
abbrev Json := PyVal → Py PyVal

abbrev State := Link MonitorState Stores PyVal

/-- `ipc_send`; a message that cannot be serialised is logged and not sent. -/
def sent (json : Json) (msg : PyVal) : List PyVal :=
  match json msg with
  | .ok frame => [frame]
  | .error _ => []

/-- A file that does not load leaves its store as it was. -/
def loadedOr (loaded : Py PyVal) (old : PyVal) : PyVal :=
  match loaded with
  | .ok value => value
  | .error _ => old

/-- What a handler has done when the next signal may come: the stores, its messages to
the worker, and where it goes on, unless it has come to its end. -/
structure Turn where
  stores : Stores
  pushed : List PyVal
  next : Option Point

/-- `get_raw` stands outside the `try` blocks: where it raises, the handler ends. -/
def turn (rt : Runtime) (depth : Depth) (files : Files) (stores : Stores) :
    Handler → Turn
  | ⟨_, .readUsers⟩ => ⟨stores, [], some (.storeUsers (files.users.map loadUserMap))⟩
  | ⟨_, .storeUsers loaded⟩ =>
      ⟨{ stores with userMap := loadedOr loaded stores.userMap }, [], some .readConsoles⟩
  | ⟨_, .readConsoles⟩ =>
      ⟨stores, [], some (.storeConsoles (files.consoles >>= loadConsoleConfig rt))⟩
  | ⟨_, .storeConsoles loaded⟩ =>
      ⟨{ stores with cfg := loadedOr loaded stores.cfg }, [], some .strip⟩
  | ⟨_, .strip⟩ =>
      match if depth.strips stores.cfg then getRaw stores.cfg else .error recursionError with
      | .ok raw => ⟨stores, [], some (.pushConfig raw)⟩
      | .error _ => ⟨stores, [], none⟩
  | ⟨.sighup, .pushConfig raw⟩ => ⟨stores, [configUpdate raw], none⟩
  | ⟨.sigusr2, .pushConfig raw⟩ => ⟨stores, [configUpdate raw], some .copyMap⟩
  | ⟨_, .copyMap⟩ =>
      match getMap stores.userMap with
      | .ok copy => ⟨stores, [], some (.pushMap copy)⟩
      | .error _ => ⟨stores, [], none⟩
  | ⟨_, .pushMap copy⟩ => ⟨stores, [enforceReq copy], none⟩

def Turn.handlers (turn : Turn) (signal : Signal) : List Handler :=
  (turn.next.map (Handler.mk signal)).toList

/-- `run` is a turn of the innermost handler, with what the files hold then.  The
handler of SIGUSR1 is a single send. -/
inductive Act where
  | signal (signal : Signal)
  | run (files : Files)
  | sigusr1

/-- What the monitor does, and what it hands to `ipc_send` for the worker meanwhile. -/
def perform (rt : Runtime) (depth : Depth) (monitor : MonitorState) :
    Act → Option (MonitorState × List PyVal)
  | .signal signal => some (⟨monitor.stores, ⟨signal, .readUsers⟩ :: monitor.handlers⟩, [])
  | .run files =>
      match monitor.handlers with
      | [] => none
      | handler :: outer =>
          let turned := turn rt depth files monitor.stores handler
          some (⟨turned.stores, turned.handlers handler.signal ++ outer⟩, turned.pushed)
  | .sigusr1 => some (monitor, [sessionListReq])

inductive Event where
  | act (act : Act)
  | deliver

def step (rt : Runtime) (json : Json) (depth : Depth) (state : State) :
    Event → Option State
  | .act act => (perform rt depth state.source act).map fun (monitor, pushed) =>
      ⟨monitor, state.frames ++ pushed.flatMap (sent json), state.replica⟩
  | .deliver =>
      match state.frames with
      | [] => none
      | frame :: rest =>
          match receiveWithin rt depth state.replica frame with
          | .ok stores => some { state with frames := rest, replica := stores }
          | .error _ => none

/-- Both user maps answer every question alike. -/
structure SameUserAnswers (monitor worker : PyVal) : Prop where
  known : ∀ username, userExists worker username = userExists monitor username
  groups : ∀ username, getGroups worker username = getGroups monitor username
  role : ∀ username, getRole worker username = getRole monitor username
  roleForGroups : ∀ groups, getRoleForGroups worker groups = getRoleForGroups monitor groups

structure Agree (rt : Runtime) (monitor worker : Stores) : Prop where
  users : SameUserAnswers monitor.userMap worker.userMap
  config : SameAnswers rt monitor.cfg worker.cfg

/-- `json.dumps` takes the message. -/
def Dumped (json : Json) (msg : PyVal) : Prop := ∃ frame, json msg = .ok frame

/-- The configuration in force after a reload gets through: it has string keys,
an entry that is not private, and no private key in a section that is read, and
`json.dumps` and `deepcopy` take what is left of it; or nothing of it reaches the
worker, and it answers as the one before. -/
def ConfigCarried (rt : Runtime) (json : Json) (depth : Depth) (old new : PyVal) : Prop :=
  ∃ data raw, keyed isString data = true ∧ precompilePatterns rt data = .ok new ∧
    ConsoleConfigStore.strip data = .ok raw ∧
    ((holdsPublic data = true ∧ Dumped json (configUpdate raw) ∧ depth.copies raw = true ∧
        publicSections data = true) ∨
      (¬ (holdsPublic data = true ∧ Dumped json (configUpdate raw)) ∧ SameAnswers rt old new))

/-- The user map gets through: it is a dictionary with entries and string keys that
`json.dumps` takes; or nothing of it reaches the worker, and it answers as the one
before. -/
def MapCarried (json : Json) (old new : PyVal) : Prop :=
  (∃ entry entries, new = .dict (entry :: entries) ∧ keyed isString new = true ∧
    Dumped json (enforceReq new)) ∨
    (SameUserAnswers old new ∧ ∀ copy, getMap new = .ok copy →
      copy = .emptyDict ∨ ¬ Dumped json (enforceReq copy))

/-- What a turn changes in the monitor, the handler will push to the worker. -/
def TurnCarried (rt : Runtime) (json : Json) (depth : Depth) (stores : Stores)
    (handler : Handler) : Prop :=
  match handler.point with
  | .storeUsers loaded =>
      match handler.signal with
      | .sighup => SameUserAnswers stores.userMap (loadedOr loaded stores.userMap)
      | .sigusr2 => MapCarried json stores.userMap (loadedOr loaded stores.userMap)
  | .storeConsoles loaded => ConfigCarried rt json depth stores.cfg (loadedOr loaded stores.cfg)
  | .strip => depth.strips stores.cfg = true
  | _ => True

/-- One handler at a time, and each pushes what it changes. -/
def Carried (rt : Runtime) (json : Json) (depth : Depth) (state : State) : Event → Prop
  | .act (.signal _) => state.source.handlers = []
  | .act (.run _) => ∀ handler ∈ state.source.handlers.head?,
      TurnCarried rt json depth state.source.stores handler
  | .act .sigusr1 | .deliver => True

theorem SameUserAnswers.refl (map : PyVal) : SameUserAnswers map map :=
  ⟨fun _ => rfl, fun _ => rfl, fun _ => rfl, fun _ => rfl⟩

/-- Whoever agrees with the old map agrees with a new one of the same answers. -/
theorem SameUserAnswers.follow {old new worker : PyVal} (hnew : SameUserAnswers old new)
    (hworker : SameUserAnswers old worker) : SameUserAnswers new worker :=
  ⟨fun username => (hworker.known username).trans (hnew.known username).symm,
    fun username => (hworker.groups username).trans (hnew.groups username).symm,
    fun username => (hworker.role username).trans (hnew.role username).symm,
    fun groups => (hworker.roleForGroups groups).trans (hnew.roleForGroups groups).symm⟩

theorem keyed_frame (kind key : String) {value : PyVal} (h : keyed isString value = true) :
    keyed isString (.ofFields [("type", .str kind), (key, value)]) = true := by
  simp [PyVal.ofFields, keyed, keyedEntries, isString, h]

theorem receiveWithin_configUpdate (rt : Runtime) {depth : Depth} (stores : Stores) {raw : PyVal}
    (hcopies : raw.truthy = true → depth.copies raw = true) :
    receiveWithin rt depth stores (configUpdate raw) =
      if raw.truthy then (update rt raw).map fun cfg => { stores with cfg } else .ok stores := by
  have hraw : (configUpdate raw).get "console_config" .none = .ok raw := rfl
  have htype : (configUpdate raw).get "type" .none = .ok (.str "CONFIG_UPDATE") := rfl
  simp only [receiveWithin, receive, htype, hraw, bind, Except.bind]
  cases htruthy : raw.truthy with
  | false => rfl
  | true =>
      rw [hcopies htruthy]
      cases update rt raw <;> rfl

theorem receiveWithin_enforceReq (rt : Runtime) (depth : Depth) (stores : Stores)
    (userMap : PyVal) : receiveWithin rt depth stores (enforceReq userMap) =
      .ok (if userMap.truthy then { stores with userMap } else stores) := rfl

section

variable {rt : Runtime} {json : Json} {depth : Depth}

/-- Between a store and the push of what was stored, the worker answers as the store
did before, and what is there now gets through. -/
def ConfigDue (rt : Runtime) (json : Json) (depth : Depth) (now worker : PyVal) : Prop :=
  ∃ old, ConfigCarried rt json depth old now ∧ SameAnswers rt old worker

def MapDue (json : Json) (now worker : PyVal) : Prop :=
  ∃ old, MapCarried json old now ∧ SameUserAnswers old worker

/-- The user map behind the store: SIGHUP pushes none. -/
def UsersAt (json : Json) (now worker : PyVal) : Signal → Prop
  | .sighup => SameUserAnswers now worker
  | .sigusr2 => MapDue json now worker

/-- How the worker stands to the monitor while one handler is under way. -/
def AgreeAt (rt : Runtime) (json : Json) (depth : Depth) (monitor worker : Stores) :
    Handler → Prop
  | ⟨_, .readUsers⟩ | ⟨_, .storeUsers _⟩ => Agree rt monitor worker
  | ⟨signal, .readConsoles⟩ | ⟨signal, .storeConsoles _⟩ =>
      UsersAt json monitor.userMap worker.userMap signal ∧
        SameAnswers rt monitor.cfg worker.cfg
  | ⟨signal, .strip⟩ => UsersAt json monitor.userMap worker.userMap signal ∧
      ConfigDue rt json depth monitor.cfg worker.cfg
  | ⟨signal, .pushConfig raw⟩ => UsersAt json monitor.userMap worker.userMap signal ∧
      ConfigDue rt json depth monitor.cfg worker.cfg ∧ getRaw monitor.cfg = .ok raw
  | ⟨_, .copyMap⟩ => MapDue json monitor.userMap worker.userMap ∧
      SameAnswers rt monitor.cfg worker.cfg
  | ⟨_, .pushMap copy⟩ => MapDue json monitor.userMap worker.userMap ∧
      SameAnswers rt monitor.cfg worker.cfg ∧ getMap monitor.userMap = .ok copy

def AgreeUnder (rt : Runtime) (json : Json) (depth : Depth) (monitor : MonitorState)
    (worker : Stores) : Prop :=
  match monitor.handlers with
  | [] => Agree rt monitor.stores worker
  | [handler] => AgreeAt rt json depth monitor.stores worker handler
  | _ :: _ :: _ => False

variable (hjson : ∀ value frame, keyed isString value = true → json value = .ok frame →
  frame = value)

include hjson in
theorem sent_cases {msg : PyVal} (hkeys : keyed isString msg = true) :
    (Dumped json msg ∧ sent json msg = [msg]) ∨ (¬ Dumped json msg ∧ sent json msg = []) := by
  unfold sent Dumped
  cases hdump : json msg with
  | error e => exact .inr ⟨nofun, rfl⟩
  | ok frame =>
      obtain rfl := hjson msg frame hkeys hdump
      exact .inl ⟨⟨frame, rfl⟩, rfl⟩

include hjson in
/-- A configuration that gets through reaches the worker with one frame. -/
theorem config_carries {now raw : PyVal} {worker : Stores}
    (hdue : ConfigDue rt json depth now worker.cfg) (hraw : getRaw now = .ok raw) :
    ∃ settled, (sent json (configUpdate raw)).foldlM (receiveWithin rt depth) worker = .ok settled ∧
      settled.userMap = worker.userMap ∧ SameAnswers rt now settled.cfg := by
  obtain ⟨old, ⟨data, raw', hkeys, hload, hstrip, hcarried⟩, hworker⟩ := hdue
  obtain ⟨stripped, pushed, hraw', hstripped, hpushed⟩ := update_returns hkeys hload
  obtain rfl := Except.ok.inj (hraw.symm.trans hraw')
  obtain rfl := Except.ok.inj (hstrip.symm.trans hstripped)
  obtain ⟨stripped, hstripped, hpublic⟩ := strip_of_strings hkeys
  obtain rfl := Except.ok.inj (hstrip.symm.trans hstripped)
  obtain ⟨entries, compiled, loaded⟩ := precompilePatterns_spec hload
  obtain rfl := loaded.file
  have hframe := keyed_frame "CONFIG_UPDATE" "console_config" (strings_of_public hpublic)
  have htruthy := truthy_strip_dict hstrip
  rcases sent_cases hjson hframe with ⟨hdumped, hsent⟩ | ⟨hdumped, hsent⟩
  · rcases hcarried with ⟨hholds, -, hcopies, hsections⟩ | ⟨hnot, hsame⟩
    · have hanswers := sameSections_of_public hsections hload hraw hpushed
      refine ⟨{ worker with cfg := pushed }, ?_, rfl, hanswers.answers rt⟩
      rw [configUpdate, hsent, ← configUpdate, List.foldlM_cons,
        receiveWithin_configUpdate rt worker fun _ => hcopies, htruthy, hholds, if_pos rfl, hpushed]
      rfl
    · have hholds : holdsPublic (.dict entries) = false :=
        Bool.eq_false_iff.mpr fun hholds => hnot ⟨hholds, hdumped⟩
      have hfalsy := htruthy.trans hholds
      refine ⟨worker, ?_, rfl, hsame.symm.trans hworker⟩
      rw [configUpdate, hsent, ← configUpdate, List.foldlM_cons,
        receiveWithin_configUpdate rt worker (by rw [hfalsy]; nofun), hfalsy]
      rfl
  · rcases hcarried with ⟨-, htaken, -⟩ | ⟨-, hsame⟩
    · exact absurd htaken hdumped
    · refine ⟨worker, ?_, rfl, hsame.symm.trans hworker⟩
      rw [configUpdate, hsent]
      rfl

include hjson in
/-- A user map that gets through reaches the worker, or need not. -/
theorem map_carries {now copy : PyVal} {worker : Stores} (hdue : MapDue json now worker.userMap)
    (hcopy : getMap now = .ok copy) :
    ∃ settled, (sent json (enforceReq copy)).foldlM (receiveWithin rt depth) worker = .ok settled ∧
      settled.cfg = worker.cfg ∧ SameUserAnswers now settled.userMap := by
  obtain ⟨old, hcarried, hworker⟩ := hdue
  rcases hcarried with ⟨entry, entries, rfl, hkeys, hdumped⟩ | ⟨hsame, hempty⟩
  · obtain rfl := Except.ok.inj hcopy
    have hframe := keyed_frame "ENFORCE_REQ" "user_map" hkeys
    rcases sent_cases hjson hframe with ⟨-, hsent⟩ | ⟨hrefused, -⟩
    · refine ⟨{ worker with userMap := .dict (entry :: entries) }, ?_, rfl, .refl _⟩
      rw [enforceReq, hsent, ← enforceReq, List.foldlM_cons, receiveWithin_enforceReq]
      rfl
    · exact absurd hdumped hrefused
  · refine ⟨worker, ?_, rfl, hsame.follow hworker⟩
    rcases hempty copy hcopy with rfl | hrefused
    · have hframe : keyed isString (enforceReq .emptyDict) = true := rfl
      rcases sent_cases hjson hframe with ⟨-, hsent⟩ | ⟨-, hsent⟩ <;> rw [hsent] <;> rfl
    · have hsent : sent json (enforceReq copy) = [] := by
        unfold sent
        cases hdump : json (enforceReq copy) with
        | error e => rfl
        | ok frame => exact absurd ⟨frame, hdump⟩ hrefused
      rw [hsent]
      rfl

/-- Without a copy nothing is pushed, and nothing is due. -/
theorem sameUserAnswers_of_due {now worker : PyVal} {e : PyExc} (hdue : MapDue json now worker)
    (hcopy : getMap now = .error e) : SameUserAnswers now worker := by
  obtain ⟨old, hcarried, hworker⟩ := hdue
  rcases hcarried with ⟨entry, entries, rfl, -, -⟩ | ⟨hsame, -⟩
  · cases hcopy
  · exact hsame.follow hworker

include hjson in
/-- A turn of the one handler there is takes the worker along. -/
theorem turn_carries {files : Files} {stores worker : Stores} {handler : Handler}
    (hagree : AgreeAt rt json depth stores worker handler)
    (hcarried : TurnCarried rt json depth stores handler) :
    ∃ settled, ((turn rt depth files stores handler).pushed.flatMap (sent json)).foldlM
        (receiveWithin rt depth) worker = .ok settled ∧
      AgreeUnder rt json depth ⟨(turn rt depth files stores handler).stores,
        (turn rt depth files stores handler).handlers handler.signal⟩ settled := by
  obtain ⟨signal, point⟩ := handler
  cases point with
  | readUsers => exact ⟨worker, rfl, hagree⟩
  | storeUsers loaded =>
      refine ⟨worker, rfl, ?_, hagree.config⟩
      cases signal with
      | sighup => exact hcarried.follow hagree.users
      | sigusr2 => exact ⟨stores.userMap, hcarried, hagree.users⟩
  | readConsoles => exact ⟨worker, rfl, hagree⟩
  | storeConsoles loaded => exact ⟨worker, rfl, hagree.1, stores.cfg, hcarried, hagree.2⟩
  | strip =>
      have hstrips : depth.strips stores.cfg = true := hcarried
      obtain ⟨old, ⟨data, raw, hkeys, hload, hstrip, hthrough⟩, hworker⟩ := hagree.2
      obtain ⟨stripped, pushed, hraw, -⟩ := update_returns hkeys hload
      refine ⟨worker, ?_, ?_⟩
      · simp only [turn, hstrips, if_true, hraw]
        rfl
      · simp only [turn, hstrips, if_true, hraw]
        exact ⟨hagree.1, ⟨old, ⟨data, raw, hkeys, hload, hstrip, hthrough⟩, hworker⟩, hraw⟩
  | pushConfig raw =>
      obtain ⟨husers, hdue, hraw⟩ := hagree
      obtain ⟨settled, hsettled, hmap, hcfg⟩ := @config_carries rt json depth hjson _ _ _ hdue hraw
      rw [← hmap] at husers
      cases signal with
      | sighup =>
          refine ⟨settled, ?_, husers, hcfg⟩
          rw [← hsettled]
          simp [turn]
      | sigusr2 =>
          refine ⟨settled, ?_, husers, hcfg⟩
          rw [← hsettled]
          simp [turn]
  | copyMap =>
      obtain ⟨hdue, hcfg⟩ := hagree
      cases hcopy : getMap stores.userMap with
      | ok copy =>
          simp only [turn, hcopy]
          exact ⟨worker, rfl, hdue, hcfg, hcopy⟩
      | error e =>
          simp only [turn, hcopy]
          exact ⟨worker, rfl, sameUserAnswers_of_due hdue hcopy, hcfg⟩
  | pushMap copy =>
      obtain ⟨hdue, hcfg, hcopy⟩ := hagree
      obtain ⟨settled, hsettled, hcfg', husers⟩ := @map_carries rt json depth hjson _ _ _ hdue hcopy
      refine ⟨settled, ?_, husers, hcfg' ▸ hcfg⟩
      rw [← hsettled]
      simp [turn]

include hjson in
/-- Every step that pushes what it changes keeps the worker on course. -/
theorem onCourse_step {state next : State} {event : Event}
    (h : OnCourse (receiveWithin rt depth) (AgreeUnder rt json depth) state)
    (hcarried : Carried rt json depth state event)
    (hstep : step rt json depth state event = some next) :
    OnCourse (receiveWithin rt depth) (AgreeUnder rt json depth) next := by
  obtain ⟨⟨stores, handlers⟩, frames, replica⟩ := state
  cases event with
  | act act =>
      obtain ⟨⟨monitor, pushed⟩, hperform, hnext⟩ := Option.map_eq_some_iff.mp hstep
      cases hnext
      refine h.push fun worker hagree => ?_
      cases act with
      | signal signal =>
          obtain rfl : handlers = [] := hcarried
          cases hperform
          exact ⟨worker, rfl, hagree⟩
      | run files =>
          cases handlers with
          | nil => cases hperform
          | cons handler outer =>
              cases hperform
              cases outer with
              | nil =>
                  rw [List.append_nil]
                  exact turn_carries hjson hagree (hcarried handler rfl)
              | cons next outer => exact hagree.elim
      | sigusr1 =>
          cases hperform
          refine ⟨worker, ?_, hagree⟩
          have hframe : keyed isString sessionListReq = true := rfl
          rw [List.flatMap_singleton]
          rcases sent_cases hjson hframe with ⟨-, hsent⟩ | ⟨-, hsent⟩ <;> rw [hsent] <;> rfl
  | deliver =>
      cases frames with
      | nil => cases hstep
      | cons frame rest =>
          simp only [step] at hstep
          split at hstep
          · cases hstep
            exact h.deliver ‹_›
          · cases hstep

end

/-- A signal whose handler runs to its end on the same files. -/
def handled (signal : Signal) (files : Files) : List Act :=
  .signal signal :: List.replicate (match signal with | .sighup => 6 | .sigusr2 => 8) (.run files)

def reloads (signal : Signal) (files : Files) : List Event := (handled signal files).map .act

def reload (rt : Runtime) (files : Files) (stores : Stores) : Stores where
  userMap := loadedOr (files.users.map loadUserMap) stores.userMap
  cfg := loadedOr (files.consoles >>= loadConsoleConfig rt) stores.cfg

section

variable {rt : Runtime} {json : Json} {depth : Depth} {files : Files} {stores : Stores}
  {handlers : List Handler} {frames : List PyVal} {replica : Stores} {raw copy : PyVal}

/-- A handler of SIGHUP that nothing disturbs, whatever it has interrupted. -/
theorem exec_sighup (hstrips : depth.strips (reload rt files stores).cfg = true)
    (hraw : getRaw (reload rt files stores).cfg = .ok raw) (events : List Event) :
    exec (step rt json depth) ⟨⟨stores, handlers⟩, frames, replica⟩
        (reloads .sighup files ++ events) =
      exec (step rt json depth) ⟨⟨reload rt files stores, handlers⟩,
        frames ++ sent json (configUpdate raw), replica⟩ events := by
  unfold reload at hstrips hraw
  simp [reloads, handled, exec, step, perform, turn, Turn.handlers, reload, hstrips, hraw,
    List.replicate]

theorem exec_sigusr2 (hstrips : depth.strips (reload rt files stores).cfg = true)
    (hraw : getRaw (reload rt files stores).cfg = .ok raw)
    (hcopy : getMap (reload rt files stores).userMap = .ok copy) (events : List Event) :
    exec (step rt json depth) ⟨⟨stores, handlers⟩, frames, replica⟩
        (reloads .sigusr2 files ++ events) =
      exec (step rt json depth) ⟨⟨reload rt files stores, handlers⟩,
        frames ++ sent json (configUpdate raw) ++ sent json (enforceReq copy), replica⟩ events := by
  unfold reload at hstrips hraw hcopy
  simp [reloads, handled, exec, step, perform, turn, Turn.handlers, reload, hstrips, hraw, hcopy,
    List.replicate]

end

mutual

/-- What JSON has room for. -/
def dumpable : PyVal → Bool
  | .list items => dumpableItems items
  | .dict entries => dumpableEntries entries
  | .pattern _ | .date _ _ => false
  | _ => true

def dumpableItems : List PyVal → Bool
  | [] => true
  | item :: rest => dumpable item && dumpableItems rest

def dumpableEntries : List (Key × PyVal) → Bool
  | [] => true
  | (_, value) :: rest => dumpable value && dumpableEntries rest

end

def plainJson : Json := fun value =>
  if dumpable value then .ok value
  else raise .typeError "Object of type date is not JSON serializable"

theorem plainJson_eq {value frame : PyVal} (h : plainJson value = .ok frame) : frame = value := by
  unfold plainJson at h
  split at h
  · exact (Except.ok.inj h).symm
  · cases h

def unbounded : Depth := ⟨fun _ => true, fun _ => true⟩

def students : PyVal := .ofFields [
  ("users", .ofFields [("student01", .ofFields [("groups", .list [.str "lab-a"])])]),
  ("groups", .ofFields [("lab-a", .ofFields [("role", .str "read_write")])])]

def graduates : PyVal := .ofFields [
  ("users", .ofFields [("student02", .ofFields [("groups", .list [.str "lab-b"])])])]

def console (name : String) : PyVal := .ofFields [("consoles", .ofFields [
  (name, .ofFields [("type", .str "exec"), ("cmd", .str "virsh console lab")])])]

def labConsoles : PyVal := console "lab01"

/-- A date without quotes, as a note on when the console was set up. -/
def datedConsoles : PyVal := .ofFields [("consoles", .ofFields [
  ("lab02", .ofFields [("type", .str "exec"), ("since", .date .date "2026-03-01")])])]

def labStores : Stores := ⟨students, labConsoles⟩

def inLab : State := ⟨⟨labStores, []⟩, [], labStores⟩

/-- A handler of SIGHUP that is about to push a configuration. -/
def paused : State :=
  ⟨⟨⟨students, console "lab02"⟩, [⟨.sighup, .pushConfig (console "lab02")⟩]⟩, [], labStores⟩

theorem exec_paused (events : List Event) :
    exec (step .plain plainJson unbounded) inLab
        (.act (.signal .sighup) ::
          (List.replicate 5 (.act (.run ⟨.ok students, .ok (console "lab02")⟩)) ++
          events)) =
      exec (step .plain plainJson unbounded) paused events := rfl

end Vnctlsd.Monitor.Replication
