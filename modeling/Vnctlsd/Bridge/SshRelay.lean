import Vnctlsd.Library.Transfer

/-! The relay loop of `vnctlsd-ssh-bridge`, over any results of the calls it makes.
What `os.write` returns is not looked at. -/
namespace Vnctlsd.SshBridge
open Vnctlsd.Library.Transfer Vnctlsd.Library.Transition

def bufsize : Nat := 65536

/-- `select` tells whether stdin and the socket are readable.  `interrupted` is what
`KeyboardInterrupt` and `InterruptedError` are to it, and to the other calls any
exception that a signal handler raises. -/
inductive OtherCall where
  | select (result : Result (Bool × Bool))
  | sendall (data : List UInt8) (result : Result Unit)
  | shutdown
  | close
  deriving DecidableEq

abbrev RelayCall := Call End OtherCall

/-- The call that comes next.  The `finally` block is entered with or without an
exception under way. -/
inductive Relay where
  | select
  | readSock (stdinReadable : Bool)
  | writeStdout (data : List UInt8) (stdinReadable : Bool)
  | readStdin
  | sendall (data : List UInt8)
  | shutdown (raised : Bool)
  | close (raised : Bool)
  | left (raised : Bool)
  deriving DecidableEq

def afterSock (stdinReadable : Bool) : Relay := if stdinReadable then .readStdin else .select

def onSelect : Result (Bool × Bool) → Relay
  | .returned (stdinReadable, sockReadable) =>
      if sockReadable then .readSock stdinReadable else afterSock stdinReadable
  | .interrupted => .shutdown false
  | .failed => .shutdown true

/-- `os.read` and the test `not data`. -/
def onRead (pass : List UInt8 → Relay) : Result (List UInt8) → Option Relay
  | .returned data =>
      if data.length ≤ bufsize then some (if data = [] then .shutdown false else pass data)
      else none
  | .interrupted | .failed => some (.shutdown true)

def onWrite (data : List UInt8) (stdinReadable : Bool) : Result Nat → Option Relay
  | .returned count => if count ≤ data.length then some (afterSock stdinReadable) else none
  | .interrupted | .failed => some (.shutdown true)

def onSendall : Result Unit → Relay
  | .returned () => .select
  | .interrupted | .failed => .shutdown true

def step (relay : Relay) (call : RelayCall) : Option Relay :=
  match relay, call with
  | .select, .other (.select result) => some (onSelect result)
  | .readSock stdinReadable, .read fd size result =>
      if fd = .sock ∧ size = bufsize then onRead (.writeStdout · stdinReadable) result else none
  | .writeStdout data stdinReadable, .write fd data' result =>
      if fd = .stdout ∧ data' = data then onWrite data stdinReadable result else none
  | .readStdin, .read fd size result =>
      if fd = .stdin ∧ size = bufsize then onRead .sendall result else none
  | .sendall data, .other (.sendall data' result) =>
      if data' = data then some (onSendall result) else none
  | .shutdown raised, .other .shutdown => some (.close raised)
  | .close raised, .other .close => some (.left raised)
  | _, _ => none

/-- What has been read from the socket and not been offered to stdout. -/
def Relay.pending : Relay → List UInt8
  | .writeStdout data _ => data
  | _ => []

theorem select_ne_writeStdout (data : List UInt8) (stdinReadable : Bool) :
    Relay.select ≠ .writeStdout data stdinReadable := by
  intro h
  cases h

theorem pending_afterSock (stdinReadable : Bool) : (afterSock stdinReadable).pending = [] := by
  cases stdinReadable <;> rfl

theorem pending_onSelect (result : Result (Bool × Bool)) : (onSelect result).pending = [] := by
  cases result with
  | interrupted | failed => rfl
  | returned ready =>
      obtain ⟨stdinReadable, sockReadable⟩ := ready
      cases sockReadable with
      | false => exact pending_afterSock stdinReadable
      | true => rfl

theorem pending_onSendall (result : Result Unit) : (onSendall result).pending = [] := by
  cases result <;> rfl

theorem pending_onWrite {data : List UInt8} {stdinReadable : Bool} {result : Result Nat}
    {next : Relay} (h : onWrite data stdinReadable result = some next) : next.pending = [] := by
  cases result with
  | interrupted | failed =>
      cases h
      rfl
  | returned count =>
      obtain ⟨-, hnext⟩ := Option.ite_none_right_eq_some.mp h
      cases hnext
      exact pending_afterSock stdinReadable

/-- A read that returns no data leads out of the loop. -/
theorem onRead_cases {pass : List UInt8 → Relay} {result : Result (List UInt8)} {next : Relay}
    (h : onRead pass result = some next) (fd : End) :
    (Call.read fd bufsize result : RelayCall).taken fd = [] ∧ next.pending = [] ∨
      ∃ data, result = .returned data ∧ next = pass data := by
  cases result with
  | interrupted | failed =>
      cases h
      exact .inl ⟨rfl, rfl⟩
  | returned data =>
      obtain ⟨-, hnext⟩ := Option.ite_none_right_eq_some.mp h
      by_cases hnil : data = []
      · rw [if_pos hnil] at hnext
        cases hnext
        exact .inl ⟨(if_pos rfl).trans hnil, rfl⟩
      · rw [if_neg hnil] at hnext
        cases hnext
        exact .inr ⟨data, rfl, rfl⟩

/-- Step lemma: a chunk from the socket is offered to stdout once, and whole. -/
theorem step_offers {relay next : Relay} {call : RelayCall} (h : step relay call = some next) :
    relay.pending ++ call.taken .sock = call.offered .stdout ++ next.pending := by
  unfold step at h
  split at h
  case h_1 =>
      cases h
      exact (pending_onSelect _).symm
  case h_2 =>
      obtain ⟨⟨rfl, rfl⟩, hread⟩ := Option.ite_none_right_eq_some.mp h
      obtain ⟨htaken, hpending⟩ | ⟨data, rfl, rfl⟩ := onRead_cases hread .sock
      · rw [htaken, hpending]
        rfl
      · rfl
  case h_3 =>
      obtain ⟨⟨rfl, rfl⟩, hwrite⟩ := Option.ite_none_right_eq_some.mp h
      rw [pending_onWrite hwrite]
      rfl
  case h_4 =>
      obtain ⟨⟨rfl, rfl⟩, hread⟩ := Option.ite_none_right_eq_some.mp h
      obtain ⟨-, hpending⟩ | ⟨data, rfl, rfl⟩ := onRead_cases hread .stdin
      · rw [hpending]
        cases ‹Result (List UInt8)› <;> rfl
      · rfl
  case h_5 =>
      obtain ⟨rfl, hsend⟩ := Option.ite_none_right_eq_some.mp h
      cases hsend
      exact (pending_onSendall _).symm
  case h_6 | h_7 =>
      cases h
      rfl
  case h_8 => cases h

/-- Run lemma: everything read from the socket has been offered to stdout. -/
theorem run_offers {calls : List RelayCall} {relay : Relay} (hrun : Run step .select calls relay) :
    received .sock calls = offered .stdout calls ++ relay.pending := by
  unfold received offered
  exact balance_of_run (fun _ _ _ => step_offers) hrun rfl

end Vnctlsd.SshBridge
