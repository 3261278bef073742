import Mathlib.Algebra.BigOperators.Group.List.Basic
import Mathlib.Algebra.GroupWithZero.Nat
import Vnctlsd.Worker.SockReadline

/-! The accept loop of the PAM bridge, and the connection threads that take their
descriptors from the same process. -/
namespace Vnctlsd.Bridge.AcceptLoop
open Vnctlsd.Library.Transition Vnctlsd.Python Worker.SockReadline

/-- How many descriptors the process may have open, and how many connection threads
it can have. -/
structure Limits where
  descriptors : Nat
  threads : Nat

/-- Where `_handle_connection` stands.  `piped` has both ends of the pipe of
`_verify_subprocess`, `awaiting` the end it reads from. -/
inductive Stage where
  | username (text : List UInt8)
  | password (username : String) (text : List UInt8)
  | checking (username : String)
  | limited
  | verifying (username : String)
  | piped (username : String)
  | awaiting (username : String)
  | failed
  | accepted (username : String)
  | closed
  deriving DecidableEq

/-- With the client's socket. -/
def Stage.descriptors : Stage → Nat
  | .closed => 0
  | .piped _ => 3
  | .awaiting _ => 2
  | _ => 1

/-- The bytes that have come from the client and are not read, and whether it is gone. -/
structure Conn where
  inbox : List UInt8
  gone : Bool
  stage : Stage
  deriving DecidableEq

inductive Act where
  | read
  | giveUp
  | check (limited : Bool)
  | pipe
  | fork (ok : Bool)
  | verified (ok : Bool)
  | wake
  | spawn

/-- `_sock_readline` on its next byte. -/
def readByte (text : List UInt8) (b : UInt8) : Line := (readline false maxLine text [b]).result

/-- What a line, or the lack of one, makes of the login. -/
def nameRead (decode : List UInt8 → String) : Line → Stage
  | .interrupted => .closed
  | .waiting text => .username text
  | .line text =>
      if text = [] then .closed
      else
        let username := Text.strip (decode text)
        if username = "" then .closed else .password username []

def passwordRead (username : String) : Line → Stage
  | .interrupted => .closed
  | .waiting text => .password username text
  | .line _ => .checking username

/-- The end of the stream reads as no line. -/
def readStage (conn : Conn) (next : Line → Stage) (text : List UInt8) : Option Conn :=
  match conn.inbox with
  | b :: rest => some { conn with inbox := rest, stage := next (readByte text b) }
  | [] => if conn.gone then some { conn with stage := .closed } else none

/-- One step of a thread, where `free` descriptors are left (one that `accept` has
reserved while it waits for a client counts as free), and the descriptors it leaks:
both ends of the pipe where `os.fork` fails.  `giveUp` is the login timeout, or a send
that fails. -/
def threadStep (decode : List UInt8 → String) (free : Nat) (conn : Conn) :
    Stage → Act → Option (Conn × Nat)
  | .username text, .read => (readStage conn (nameRead decode) text).map (·, 0)
  | .password username text, .read =>
      (readStage conn (passwordRead username) text).map (·, 0)
  | .username _, .giveUp | .password _ _, .giveUp => some ({ conn with stage := .closed }, 0)
  | .checking username, .check limited =>
      some ({ conn with stage := if limited then .limited else .verifying username }, 0)
  | .verifying username, .pipe =>
      some ({ conn with stage := if 2 ≤ free then .piped username else .closed }, 0)
  | .piped username, .fork true => some ({ conn with stage := .awaiting username }, 0)
  | .piped _, .fork false => some ({ conn with stage := .closed }, 2)
  | .awaiting username, .verified ok =>
      some ({ conn with stage := if ok then .accepted username else .failed }, 0)
  | .limited, .wake | .failed, .wake | .accepted _, .spawn =>
      some ({ conn with stage := .closed }, 0)
  | _, _ => none

/-- A client in the queue of the listening socket has `aborted` or not; `other` counts
the descriptors that belong to no connection. -/
structure World where
  accepting : Bool
  backlog : List Bool
  conns : List Conn
  other : Nat
  deriving DecidableEq

def World.used (world : World) : Nat :=
  world.other + (world.conns.map fun conn => conn.stage.descriptors).sum

def World.threads (world : World) : Nat :=
  world.conns.countP fun conn => conn.stage != .closed

/-- What the system answers to `accept()`. -/
inductive Answer where
  | connection
  | emfile
  | connAborted
  deriving DecidableEq

inductive Event where
  | connect
  | abort (i : Nat)
  | send (i : Nat) (bytes : List UInt8)
  | leave (i : Nat)
  | accept (answer : Answer)
  | act (i : Nat) (act : Act)

/-- `break` on any `OSError`, and `Thread.start` is outside of the `try`. -/
def acceptStep (limits : Limits) (world : World) : Answer → Option World
  | .emfile =>
      if limits.descriptors ≤ world.used then some { world with accepting := false } else none
  | .connAborted =>
      match world.backlog with
      | true :: rest => some { world with accepting := false, backlog := rest }
      | _ => none
  | .connection =>
      match world.backlog with
      | [] => none
      | aborted :: rest =>
          if limits.descriptors ≤ world.used then none
          else if limits.threads ≤ world.threads then
            some { world with accepting := false, backlog := rest }
          else some { world with
            backlog := rest
            conns := world.conns ++ [⟨[], aborted, .username []⟩] }

def eventStep (decode : List UInt8 → String) (limits : Limits) (world : World) :
    Event → Option World
  | .connect => some { world with backlog := world.backlog ++ [false] }
  | .abort i =>
      if i < world.backlog.length then some { world with backlog := world.backlog.set i true }
      else none
  | .send i bytes => world.conns[i]?.map fun conn =>
      { world with conns := world.conns.set i { conn with inbox := conn.inbox ++ bytes } }
  | .leave i => world.conns[i]?.map fun conn =>
      { world with conns := world.conns.set i { conn with gone := true } }
  | .accept answer => acceptStep limits world answer
  | .act i act => do
      let conn ← world.conns[i]?
      let (conn', leaked) ← threadStep decode (limits.descriptors - world.used) conn conn.stage act
      some { world with conns := world.conns.set i conn', other := world.other + leaked }

/-- Once the loop is left, the process is over. -/
def step (decode : List UInt8 → String) (limits : Limits) (world : World) (event : Event) :
    Option World :=
  if world.accepting then eventStep decode limits world event else none

variable {decode : List UInt8 → String} {limits : Limits}

theorem nameRead_descriptors (line : Line) : (nameRead decode line).descriptors ≤ 1 := by
  cases line with
  | interrupted => exact Nat.zero_le _
  | waiting text => exact Nat.le_refl _
  | line text =>
      rw [nameRead]
      split
      · exact Nat.zero_le _
      · dsimp only
        split
        · exact Nat.zero_le _
        · exact Nat.le_refl _

theorem passwordRead_descriptors (username : String) (line : Line) :
    (passwordRead username line).descriptors ≤ 1 := by
  cases line with
  | interrupted => exact Nat.zero_le _
  | waiting text => exact Nat.le_refl _
  | line text => exact Nat.le_refl _

theorem readStage_descriptors {conn conn' : Conn} {next : Line → Stage} {text : List UInt8}
    (hnext : ∀ line, (next line).descriptors ≤ 1) (h : readStage conn next text = some conn') :
    conn'.stage.descriptors ≤ 1 := by
  unfold readStage at h
  split at h
  · cases h
    exact hnext _
  · split at h
    · cases h
      exact Nat.zero_le _
    · cases h

/-- A thread takes no more than is free. -/
theorem threadStep_descriptors {free leaked : Nat} {conn conn' : Conn} {act : Act}
    (h : threadStep decode free conn conn.stage act = some (conn', leaked)) :
    conn'.stage.descriptors + leaked ≤ conn.stage.descriptors + free := by
  generalize hstage : conn.stage = stage at h
  unfold threadStep at h
  split at h
  · obtain ⟨read, hread, heq⟩ := Option.map_eq_some_iff.mp h
    cases heq
    have := readStage_descriptors nameRead_descriptors hread
    exact Nat.le_add_right_of_le this
  · obtain ⟨read, hread, heq⟩ := Option.map_eq_some_iff.mp h
    cases heq
    have := readStage_descriptors (passwordRead_descriptors _) hread
    exact Nat.le_add_right_of_le this
  all_goals grind [Stage.descriptors]

theorem used_set {world : World} {i : Nat} {conn : Conn} (h : world.conns[i]? = some conn)
    (conn' : Conn) (other : Nat) :
    World.used { world with conns := world.conns.set i conn', other := world.other + other } +
        conn.stage.descriptors = world.used + conn'.stage.descriptors + other := by
  obtain ⟨hi, rfl⟩ := List.getElem?_eq_some_iff.mp h
  have hsplit := List.take_append_drop i world.conns
  rw [List.drop_eq_getElem_cons hi] at hsplit
  have hset : world.conns.set i conn' =
      world.conns.take i ++ conn' :: world.conns.drop (i + 1) :=
    List.set_eq_take_append_cons_drop .. |>.trans (if_pos hi)
  have hsum : (world.conns.map fun conn => conn.stage.descriptors).sum =
      (((world.conns.take i) ++ world.conns[i] :: world.conns.drop (i + 1)).map
        fun conn => conn.stage.descriptors).sum := by rw [hsplit]
  simp only [World.used, hset, hsum, List.map_append, List.map_cons, List.sum_append,
    List.sum_cons]
  omega

/-- What a step can do: the loop goes on, or the event is an accept. -/
theorem step_cases {world next : World} {event : Event}
    (h : step decode limits world event = some next) : world.accepting = true ∧
      ((∃ answer, event = .accept answer ∧ acceptStep limits world answer = some next) ∨
        ((∀ answer, event ≠ .accept answer) ∧ next.accepting = true ∧
          (world.used ≤ limits.descriptors → next.used ≤ limits.descriptors))) := by
  unfold step at h
  split at h
  case isFalse => cases h
  rename_i hon
  refine ⟨hon, ?_⟩
  cases event with
  | accept answer => exact .inl ⟨answer, rfl, h⟩
  | connect =>
      cases h
      exact .inr ⟨fun _ h => (by cases h), hon, id⟩
  | abort i =>
      rw [eventStep] at h
      split at h
      · cases h
        exact .inr ⟨fun _ h => (by cases h), hon, id⟩
      · cases h
  | send i bytes =>
      obtain ⟨conn, hconn, rfl⟩ := Option.map_eq_some_iff.mp h
      have hused := used_set hconn { conn with inbox := conn.inbox ++ bytes } 0
      exact .inr ⟨fun _ h => (by cases h), hon, fun hle => by simp_all⟩
  | leave i =>
      obtain ⟨conn, hconn, rfl⟩ := Option.map_eq_some_iff.mp h
      have hused := used_set hconn { conn with gone := true } 0
      exact .inr ⟨fun _ h => (by cases h), hon, fun hle => by simp_all⟩
  | act i act =>
      obtain ⟨conn, hconn, h⟩ := Option.bind_eq_some_iff.mp h
      obtain ⟨⟨conn', leaked⟩, hthread, h⟩ := Option.bind_eq_some_iff.mp h
      cases h
      have hused := used_set hconn conn' leaked
      have htaken := threadStep_descriptors hthread
      exact .inr ⟨fun _ h => (by cases h), hon, fun hle => by omega⟩

/-- The accept is answered with a connection, for which there are a descriptor and a
thread. -/
def Served (limits : Limits) (world : World) : Event → Prop
  | .accept answer => answer ≠ .connAborted ∧ world.used < limits.descriptors ∧
      world.threads < limits.threads
  | _ => True

theorem acceptStep_accepting_iff {world next : World} {answer : Answer}
    (hon : world.accepting = true) (h : acceptStep limits world answer = some next) :
    next.accepting = true ↔ Served limits world (.accept answer) := by
  cases answer <;> grind [acceptStep, Served]

theorem acceptStep_used_le {world next : World} {answer : Answer}
    (hused : world.used ≤ limits.descriptors) (h : acceptStep limits world answer = some next) :
    next.used ≤ limits.descriptors := by
  cases answer with
  | emfile =>
      rw [acceptStep] at h
      split at h
      · cases h
        exact hused
      · cases h
  | connAborted =>
      rw [acceptStep] at h
      split at h
      · cases h
        exact hused
      · cases h
  | connection =>
      rw [acceptStep] at h
      split at h
      · cases h
      · split at h
        · cases h
        · split at h
          · cases h
            exact hused
          · cases h
            simp only [World.used, List.map_append, List.sum_append, List.map_cons, List.map_nil,
              List.sum_cons, List.sum_nil, Stage.descriptors] at *
            omega

/-- No run opens more descriptors than the process may have. -/
theorem used_le_of_run {start finish : World} {events : List Event}
    (hrun : Run (step decode limits) start events finish) (h : start.used ≤ limits.descriptors) :
    finish.used ≤ limits.descriptors := by
  have hkeep : ∀ (world : World) event next, world.used ≤ limits.descriptors →
      step decode limits world event = some next → next.used ≤ limits.descriptors := by
    intro world event next hle hstep
    obtain ⟨-, ⟨answer, rfl, haccept⟩ | ⟨-, -, hkept⟩⟩ := step_cases hstep
    · exact acceptStep_used_le hle haccept
    · exact hkept hle
  exact hrun.invariant hkeep h

theorem step_accepting_iff {world next : World} {event : Event}
    (h : step decode limits world event = some next) :
    next.accepting = true ↔ Served limits world event := by
  obtain ⟨hon, ⟨answer, rfl, haccept⟩ | ⟨hother, hnext, -⟩⟩ := step_cases h
  · exact acceptStep_accepting_iff hon haccept
  · have hserved : Served limits world event := by
      unfold Served
      split
      · exact absurd rfl (hother _)
      · trivial
    exact iff_of_true hnext hserved

/-- In every run the loop goes on exactly when every accept is served. -/
theorem accepting_iff {start finish : World} {events : List Event}
    (hstart : start.accepting = true) (hrun : Run (step decode limits) start events finish) :
    finish.accepting = true ↔
      GuardedRun (step decode limits) (Served limits) start events finish := by
  have hon : ∀ world event next, step decode limits world event = some next →
      world.accepting = true := fun _ _ _ hstep => (step_cases hstep).1
  have hserved : ∀ world event next, step decode limits world event = some next →
      (next.accepting = true ↔ Served limits world event) := fun _ _ _ => step_accepting_iff
  exact hrun.on_iff_guarded hon hserved hstart

/-- What `bytes.decode` gives for ASCII. -/
def asText (bytes : List UInt8) : String :=
  String.ofList (bytes.map fun b => Char.ofNat b.toNat)

/-- The standard descriptors and the listening socket are open. -/
def listening : World := ⟨true, [], [], 4⟩

def aliceLogin : List Event :=
  [.connect, .accept .connection, .send 0 (Text.ascii "al\x0d\x0d"), .act 0 .read, .act 0 .read,
    .act 0 .read, .act 0 .read, .act 0 (.check false), .act 0 .pipe, .act 0 (.fork true),
    .act 0 (.verified true), .act 0 .spawn]

theorem accepting_iff_alice :
    ∃ finish, GuardedRun (step asText ⟨16, 8⟩) (Served ⟨16, 8⟩) listening aliceLogin finish := by
  have hrun : Run (step asText ⟨16, 8⟩) listening aliceLogin
      ⟨true, [], [⟨[], false, .closed⟩], 4⟩ := run_of_exec (by decide)
  exact ⟨_, (accepting_iff rfl hrun).mp rfl⟩

/-- With room for one connection, a second one ends the loop; so does one that is
aborted before it is accepted. -/
theorem secondClient_ends_loop :
    (∃ finish, Run (step asText ⟨5, 8⟩) listening
      [.connect, .connect, .accept .connection, .accept .emfile] finish ∧
        finish.accepting = false) ∧
    ∃ finish, Run (step asText ⟨16, 8⟩) listening
      [.connect, .abort 0, .accept .connAborted] finish ∧ finish.accepting = false :=
  ⟨⟨⟨false, [false], [⟨[], false, .username []⟩], 4⟩, run_of_exec (by decide), rfl⟩,
    ⟨⟨false, [], [], 4⟩, run_of_exec (by decide), rfl⟩⟩

/-- One more client takes one more descriptor, or there is no thread for it. -/
theorem connect_accept (decode : List UInt8 → String) {limits : Limits} {start : World}
    (hon : start.accepting = true) (hfree : start.used < limits.descriptors) :
    ∃ next, Run (step decode limits) start [.connect, .accept .connection] next ∧
      (next.accepting = true → next.used = start.used + 1) := by
  obtain ⟨aborted, rest, hbacklog⟩ :=
    List.exists_cons_of_ne_nil (List.append_ne_nil_of_right_ne_nil start.backlog (List.cons_ne_nil
      false []))
  let queued : World := { start with backlog := aborted :: rest }
  have hconnect : step decode limits start .connect = some queued := by
    rw [step, if_pos hon, eventStep, hbacklog]
  have haccept : step decode limits queued (.accept .connection) =
      if limits.threads ≤ start.threads then
        some { queued with accepting := false, backlog := rest }
      else some { queued with
        backlog := rest
        conns := start.conns ++ [⟨[], aborted, .username []⟩] } := by
    rw [step, if_pos (show queued.accepting = true from hon), eventStep]
    exact if_neg (Nat.not_le.mpr hfree)
  by_cases hthreads : limits.threads ≤ start.threads
  · rw [if_pos hthreads] at haccept
    exact ⟨_, .cons hconnect (.cons haccept (.nil _)), fun h => by cases h⟩
  · rw [if_neg hthreads] at haccept
    refine ⟨_, .cons hconnect (.cons haccept (.nil _)), fun _ => ?_⟩
    simp [World.used, queued, Stage.descriptors, Nat.add_assoc]

/-- No limit is high enough: clients that connect and send nothing end the loop from
every state. -/
theorem silent_clients_end_loop (decode : List UInt8 → String) (limits : Limits)
    {start : World} (hon : start.accepting = true) :
    ∃ events finish, Run (step decode limits) start events finish ∧ finish.accepting = false ∧
      ∀ event ∈ events, event = .connect ∨ ∃ answer, event = .accept answer := by
  induction hfree : limits.descriptors - start.used using Nat.strong_induction_on generalizing
    start with
  | _ free ih =>
      by_cases hfull : limits.descriptors ≤ start.used
      · have hemfile : step decode limits start (.accept .emfile) =
            some { start with accepting := false } := by
          rw [step, if_pos hon, eventStep, acceptStep, if_pos hfull]
        exact ⟨_, _, .cons hemfile (.nil _), rfl, by simp⟩
      · obtain ⟨next, hrun, hused⟩ := connect_accept decode hon (Nat.not_le.mp hfull)
        cases hnext : next.accepting with
        | false => exact ⟨_, next, hrun, hnext, by simp⟩
        | true =>
            have := hused hnext
            obtain ⟨events, finish, hrest, hoff, hsilent⟩ := ih _ (by omega) hnext rfl
            refine ⟨_, finish, hrun.append hrest, hoff, fun event hevent => ?_⟩
            rcases List.mem_append.mp hevent with hfirst | hlater
            · simp only [List.mem_cons, List.not_mem_nil, or_false] at hfirst
              rcases hfirst with rfl | rfl
              · exact .inl rfl
              · exact .inr ⟨_, rfl⟩
            · exact hsilent event hlater

end Vnctlsd.Bridge.AcceptLoop
