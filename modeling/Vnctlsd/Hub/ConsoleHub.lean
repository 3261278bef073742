import Vnctlsd.Library.Dict

/-! One console hub: its reader thread, its grace timers, and the operations
other threads call on it.  Each block under the hub's lock and each call outside
it is one step. -/
namespace Vnctlsd.ConsoleHub
open Vnctlsd.Library

/-- Where the reader thread is.  `failing` is behind a read that gave an error
or no data, with `_done` not set yet. -/
inductive Reader where
  | testing
  | reading
  | broadcasting (data : List UInt8)
  | failing
  | clearing
  | closing
  | exited
  deriving DecidableEq

def Reader.inLoop : Reader → Bool
  | .testing | .reading | .broadcasting _ | .failing => true
  | .clearing | .closing | .exited => false

/-- `file` is what the descriptor stood for when the hub was created, `shutdowns`
and `closes` count the calls so far; no code reads these.  `expired` timers are
past their wait and will run `_teardown`, `doomed` ones have found no client
there. -/
structure Hub where
  name : String
  fd : Nat
  file : Nat
  done : Bool
  clients : Dict String Bool
  graceTimer : Option Nat
  nextTimer : Nat
  waiting : List Nat
  expired : Nat
  doomed : Nat
  timerClosing : Nat
  callerClosing : Nat
  armers : Nat
  reader : Reader
  shutdowns : Nat
  closes : Nat

def create (name : String) (fd file : Nat) : Hub where
  name := name
  fd := fd
  file := file
  done := false
  clients := .empty
  graceTimer := none
  nextTimer := 0
  waiting := []
  expired := 0
  doomed := 0
  timerClosing := 0
  callerClosing := 0
  armers := 0
  reader := .testing
  shutdowns := 0
  closes := 0

inductive Act where
  | addClient (cid : String) (readOnly : Bool)
  | removeClient (cid : String)
  | armGrace
  | armSpawned
  | expire (timer : Nat)
  | checkGrace
  | timerShutdown
  | timerClose
  | shutdown
  | close
  | writeFailed
  | test
  | read (data : List UInt8)
  | broadcast (dead : List String)
  | fail
  | clear
  | readerClose
  deriving DecidableEq

def Act.closes : Act → Bool
  | .timerClose | .close | .readerClose => true
  | _ => false

def Act.shutsDown : Act → Bool
  | .timerShutdown | .shutdown => true
  | _ => false

/-- The steps that the hub's own threads take: its reader, its timers, and the
threads the reader starts. -/
def Act.internal : Act → Bool
  | .addClient _ _ | .removeClient _ | .armGrace | .shutdown | .close | .writeFailed => false
  | _ => true

/-- `self._grace_timer.cancel()`; a timer past its wait is not stopped by it. -/
def cancelled (hub : Hub) : List Nat :=
  match hub.graceTimer with
  | none => hub.waiting
  | some timer => hub.waiting.erase timer

def arm (hub : Hub) : Hub :=
  { hub with
    waiting := hub.nextTimer :: cancelled hub
    graceTimer := some hub.nextTimer
    nextTimer := hub.nextTimer + 1 }

def isEmpty (clients : Dict String Bool) : Bool := clients.entries.isEmpty

/-- The broadcast block: clients whose `sendall` raised are dropped, and a hub
left without clients has a thread started to arm the timer. -/
def drop (hub : Hub) (dead : List String) : Hub :=
  let clients := hub.clients.eraseMany dead
  { hub with
    clients := clients
    armers := if isEmpty clients then hub.armers + 1 else hub.armers
    reader := .testing }

def step (hub : Hub) : Act → Option Hub
  | .addClient cid readOnly => some { hub with
      waiting := cancelled hub, graceTimer := none, clients := hub.clients.set cid readOnly }
  | .removeClient cid => some { hub with clients := hub.clients.erase cid }
  | .armGrace => some (arm hub)
  | .armSpawned =>
      if 0 < hub.armers then some { arm hub with armers := hub.armers - 1 } else none
  | .expire timer =>
      if timer ∈ hub.waiting then
        some { hub with waiting := hub.waiting.erase timer, expired := hub.expired + 1 }
      else none
  | .checkGrace =>
      if 0 < hub.expired then
        if isEmpty hub.clients then
          some { hub with
            expired := hub.expired - 1, graceTimer := none, doomed := hub.doomed + 1 }
        else some { hub with expired := hub.expired - 1 }
      else none
  | .timerShutdown =>
      if 0 < hub.doomed then
        some { hub with
          doomed := hub.doomed - 1, done := true
          timerClosing := hub.timerClosing + 1, shutdowns := hub.shutdowns + 1 }
      else none
  | .timerClose =>
      if 0 < hub.timerClosing then
        some { hub with timerClosing := hub.timerClosing - 1, closes := hub.closes + 1 }
      else none
  | .shutdown => some { hub with
      done := true, callerClosing := hub.callerClosing + 1, shutdowns := hub.shutdowns + 1 }
  | .close =>
      if 0 < hub.callerClosing then
        some { hub with callerClosing := hub.callerClosing - 1, closes := hub.closes + 1 }
      else none
  | .writeFailed => some { hub with done := true }
  | .test =>
      if hub.reader = .testing then
        some { hub with reader := if hub.done then .clearing else .reading }
      else none
  | .read data =>
      if hub.reader = .reading then
        some { hub with reader := if data = [] then .failing else .broadcasting data }
      else none
  | .broadcast dead =>
      match hub.reader with
      | .broadcasting _ => if dead ⊆ hub.clients.keys then some (drop hub dead) else none
      | _ => none
  | .fail =>
      if hub.reader = .failing then some { hub with done := true, reader := .clearing } else none
  | .clear =>
      if hub.reader = .clearing then
        some { hub with clients := .empty, reader := .closing }
      else none
  | .readerClose =>
      if hub.reader = .closing then
        some { hub with reader := .exited, closes := hub.closes + 1 }
      else none

def Act.exits : Act → Bool
  | .readerClose => true
  | _ => false

def leavesLoop (hub : Hub) : Act → Bool
  | .test => hub.done
  | .fail => true
  | _ => false

/-- What every step leaves as it is, what it counts, and where it takes the
reader; the invariants below rest on nothing else. -/
structure Frame (hub next : Hub) (act : Act) : Prop where
  name : next.name = hub.name
  fd : next.fd = hub.fd
  file : next.file = hub.file
  closes : next.closes = hub.closes + act.closes.toNat
  shutdowns : next.shutdowns = hub.shutdowns + act.shutsDown.toNat
  pending : next.closes + next.timerClosing + next.callerClosing =
    hub.closes + hub.timerClosing + hub.callerClosing + act.shutsDown.toNat + act.exits.toNat
  exited : (if next.reader = .exited then 1 else 0) =
    (if hub.reader = .exited then 1 else 0) + act.exits.toNat
  inLoop : next.reader.inLoop = (hub.reader.inLoop && !leavesLoop hub act)
  done : hub.done = true ∨ act.shutsDown = true ∨ leavesLoop hub act = true →
    next.done = true

theorem step_frame {hub next : Hub} {act : Act} (h : step hub act = some next) :
    Frame hub next act := by
  cases act with
  | addClient | removeClient | writeFailed =>
      cases h
      constructor <;> simp [Act.closes, Act.shutsDown, Act.exits, leavesLoop]
  | armGrace =>
      cases h
      constructor <;> simp [Act.closes, Act.shutsDown, Act.exits, leavesLoop, arm]
      rfl
  | shutdown =>
      cases h
      constructor <;> simp [Act.closes, Act.shutsDown, Act.exits, leavesLoop]
      omega
  | armSpawned =>
      simp only [step] at h
      split at h <;> cases h
      constructor <;> simp [Act.closes, Act.shutsDown, Act.exits, leavesLoop, arm]
      rfl
  | expire =>
      simp only [step] at h
      split at h <;> cases h
      constructor <;> simp [Act.closes, Act.shutsDown, Act.exits, leavesLoop]
  | timerShutdown | timerClose | close =>
      simp only [step] at h
      split at h <;> cases h
      constructor <;> simp [Act.closes, Act.shutsDown, Act.exits, leavesLoop]
      omega
  | checkGrace =>
      simp only [step] at h
      split at h
      · split at h <;> cases h <;>
          constructor <;> simp [Act.closes, Act.shutsDown, Act.exits, leavesLoop]
      · cases h
  | test =>
      simp only [step] at h
      split at h <;> cases h
      rename_i hreader
      cases hdone : hub.done <;> constructor <;>
        simp [Act.closes, Act.shutsDown, Act.exits, leavesLoop, Reader.inLoop, hreader, hdone]
  | read data =>
      simp only [step] at h
      split at h <;> cases h
      rename_i hreader
      by_cases hdata : data = [] <;> constructor <;>
        simp [Act.closes, Act.shutsDown, Act.exits, leavesLoop, Reader.inLoop, hreader, hdata]
  | fail | clear =>
      simp only [step] at h
      split at h <;> cases h
      rename_i hreader
      constructor <;>
        simp [Act.closes, Act.shutsDown, Act.exits, leavesLoop, Reader.inLoop, hreader]
  | readerClose =>
      simp only [step] at h
      split at h <;> cases h
      rename_i hreader
      constructor <;>
        simp [Act.closes, Act.shutsDown, Act.exits, leavesLoop, Reader.inLoop, hreader]
      omega
  | broadcast dead =>
      simp only [step] at h
      split at h
      · rename_i hreader
        split at h <;> cases h
        constructor <;>
          simp [Act.closes, Act.shutsDown, Act.exits, leavesLoop, Reader.inLoop, hreader, drop]
      · cases h

/-- Every call of `shutdown` and the reader's exit account for one close each,
made or still to come, and all of them have set `_done` first. -/
structure Accounted (hub : Hub) : Prop where
  balance : hub.closes + hub.timerClosing + hub.callerClosing =
    hub.shutdowns + if hub.reader = .exited then 1 else 0
  isDone : 0 < hub.shutdowns ∨ hub.reader.inLoop = false → hub.done = true

theorem create_accounted (name : String) (fd file : Nat) : Accounted (create name fd file) where
  balance := rfl
  isDone := by
    rintro (h | h)
    · exact absurd h (Nat.lt_irrefl 0)
    · cases h

theorem step_accounted {hub next : Hub} {act : Act} (hinv : Accounted hub)
    (h : step hub act = some next) : Accounted next := by
  obtain ⟨hbalance, hdone⟩ := hinv
  have hframe := step_frame h
  constructor
  · have hpending := hframe.pending
    have hexited := hframe.exited
    have hshutdowns := hframe.shutdowns
    omega
  · rintro (hpos | hloop)
    · rw [hframe.shutdowns] at hpos
      cases hshut : act.shutsDown with
      | true => exact hframe.done (.inr (.inl hshut))
      | false =>
          rw [hshut] at hpos
          exact hframe.done (.inl (hdone (.inl hpos)))
    · rw [hframe.inLoop, Bool.and_eq_false_iff, Bool.not_eq_false'] at hloop
      rcases hloop with hout | hleaves
      · exact hframe.done (.inl (hdone (.inr hout)))
      · exact hframe.done (.inr (.inr hleaves))

/-- The reader clears the clients behind its loop only. -/
theorem Accounted.done_of_clear {hub next : Hub} (hinv : Accounted hub)
    (h : step hub .clear = some next) : hub.done = true := by
  obtain ⟨hreader, -⟩ := Option.ite_none_right_eq_some.mp h
  refine hinv.isDone (.inr ?_)
  rw [hreader]
  rfl

/-- `shutdown` is entered at most once, and only on a hub whose reader has not
left its loop; the reader leaves it only on a hub that nobody has shut down. -/
structure EndsOneWay (hub : Hub) (act : Act) : Prop where
  shutdown : act.shutsDown = true → hub.shutdowns = 0 ∧ hub.reader.inLoop = true
  reader : leavesLoop hub act = true → hub.shutdowns = 0

structure OneWay (hub : Hub) : Prop where
  once : hub.shutdowns ≤ 1
  reading : 0 < hub.shutdowns → hub.reader.inLoop = true

theorem create_oneWay (name : String) (fd file : Nat) : OneWay (create name fd file) :=
  ⟨Nat.zero_le 1, fun h => absurd h (Nat.lt_irrefl 0)⟩

theorem step_oneWay {hub next : Hub} {act : Act} (hinv : OneWay hub)
    (hguard : EndsOneWay hub act) (h : step hub act = some next) : OneWay next := by
  obtain ⟨honce, hreading⟩ := hinv
  have hframe := step_frame h
  have hshutdowns := hframe.shutdowns
  cases hshut : act.shutsDown with
  | true =>
      obtain ⟨hzero, hloop⟩ := hguard.shutdown hshut
      rw [hzero, hshut] at hshutdowns
      refine ⟨Nat.le_of_eq hshutdowns, fun _ => ?_⟩
      -- entering `shutdown` is no turn of the reader
      have hstays : leavesLoop hub act = false := by
        cases act <;> first | rfl | cases hshut
      rw [hframe.inLoop, hloop, hstays]
      rfl
  | false =>
      rw [hshut] at hshutdowns
      refine ⟨hshutdowns ▸ honce, fun hpos => ?_⟩
      rw [hshutdowns] at hpos
      cases hleaves : leavesLoop hub act with
      | true => exact absurd (hguard.reader hleaves) (Nat.pos_iff_ne_zero.mp hpos)
      | false =>
          rw [hframe.inLoop, hreading hpos, hleaves]
          rfl

theorem closes_le_one {hub : Hub} (haccounted : Accounted hub) (honeWay : OneWay hub) :
    hub.closes ≤ 1 := by
  have hbalance := haccounted.balance
  have honce := honeWay.once
  by_cases hpos : 0 < hub.shutdowns
  · have hloop := honeWay.reading hpos
    have hexited : hub.reader ≠ .exited := by
      intro hreader
      simp [hreader, Reader.inLoop] at hloop
    rw [if_neg hexited] at hbalance
    omega
  · split at hbalance <;> omega

end Vnctlsd.ConsoleHub
