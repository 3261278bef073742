import Vnctlsd.Library.Transition
import Vnctlsd.Session.Registry

/-! The loop of `run_console_session` on one client socket.  The operating
system queues what the client sends, up to the moment the socket is shut down;
what is queued by then can still be received. -/
namespace Vnctlsd.Worker.ConsoleSession
open Vnctlsd.Library.Transition SessionRegistry

def tilde : UInt8 := 0x7e
def dot : UInt8 := 0x2e

/-- What one received chunk leaves: the bytes to pass on, the escape state for
the next chunk, and whether `~.` has ended the session. -/
structure Decoded where
  out : List UInt8
  escape : Bool
  detached : Bool
  deriving DecidableEq

def decode (escape : Bool) (out : List UInt8) : List UInt8 → Decoded
  | [] => ⟨out, escape, false⟩
  | b :: rest =>
      if !escape then
        if b = tilde then decode true out rest else decode false (out ++ [b]) rest
      else if b = dot then ⟨out, false, true⟩
      else if b = tilde then decode false (out ++ [tilde]) rest
      else decode false (out ++ [tilde, b]) rest

theorem decode_tilde (out rest : List UInt8) :
    decode false out (tilde :: rest) = decode true out rest := rfl

theorem decode_plain {b : UInt8} (h : b ≠ tilde) (out rest : List UInt8) :
    decode false out (b :: rest) = decode false (out ++ [b]) rest := by
  rw [decode, Bool.not_false, if_pos rfl, if_neg h]

theorem decode_literal (out rest : List UInt8) :
    decode true out (tilde :: rest) = decode false (out ++ [tilde]) rest := rfl

theorem decode_other {b : UInt8} (hdot : b ≠ dot) (htilde : b ≠ tilde) (out rest : List UInt8) :
    decode true out (b :: rest) = decode false (out ++ [tilde, b]) rest := by
  rw [decode, Bool.not_true, if_neg Bool.false_ne_true, if_neg hdot, if_neg htilde]

theorem decode_out (escape : Bool) (before out data : List UInt8) :
    decode escape (before ++ out) data =
      { decode escape out data with out := before ++ (decode escape out data).out } := by
  induction data generalizing escape out with
  | nil => rfl
  | cons b rest ih =>
      cases escape with
      | false =>
          rcases eq_or_ne b tilde with rfl | htilde
          · rw [decode_tilde, decode_tilde, ih]
          · rw [decode_plain htilde, decode_plain htilde, List.append_assoc, ih]
      | true =>
          rcases eq_or_ne b dot with rfl | hdot
          · rfl
          · rcases eq_or_ne b tilde with rfl | htilde
            · rw [decode_literal, decode_literal, List.append_assoc, ih]
            · rw [decode_other hdot htilde, decode_other hdot htilde, List.append_assoc, ih]

theorem decode_append (escape : Bool) (out first second : List UInt8) :
    decode escape out (first ++ second) =
      if (decode escape out first).detached then decode escape out first
      else decode (decode escape out first).escape (decode escape out first).out second := by
  induction first generalizing escape out with
  | nil => rfl
  | cons b rest ih =>
      rw [List.cons_append]
      cases escape with
      | false =>
          rcases eq_or_ne b tilde with rfl | htilde
          · rw [decode_tilde, decode_tilde, ih]
          · rw [decode_plain htilde, decode_plain htilde, ih]
      | true =>
          rcases eq_or_ne b dot with rfl | hdot
          · rfl
          · rcases eq_or_ne b tilde with rfl | htilde
            · rw [decode_literal, decode_literal, ih]
            · rw [decode_other hdot htilde, decode_other hdot htilde, ih]

/-- A chunk is decoded on from the state the data before it has left. -/
theorem decode_resume {start escape : Bool} {data : List UInt8}
    (hdetached : (decode start [] data).detached = false)
    (hescape : escape = (decode start [] data).escape) (chunk : List UInt8) :
    decode start [] (data ++ chunk) =
      { decode escape [] chunk with
        out := (decode start [] data).out ++ (decode escape [] chunk).out } := by
  rw [decode_append, hdetached, if_neg Bool.false_ne_true, ← hescape]
  exact (congrArg (decode escape · _) (List.append_nil _).symm).trans (decode_out escape _ [] _)

/-- One client socket with the session thread behind it.  `written` is what has
been passed to `write_input`. -/
structure Channel where
  sock : Sock
  readOnly : Bool
  queue : List UInt8
  escape : Bool
  written : List UInt8
  attached : Bool
  deriving DecidableEq

inductive Event where
  | send (bytes : List UInt8)
  | recv (size : Nat)
  | leave
  deriving DecidableEq

def receive (channel : Channel) (data : List UInt8) : Channel :=
  if channel.readOnly then channel
  else
    let decoded := decode channel.escape [] data
    { channel with
      escape := decoded.escape
      written := channel.written ++ decoded.out
      attached := !decoded.detached }

/-- A send on a socket that the worker has shut down or closed fails with
`EPIPE` and queues nothing.  `leave` is any other end of the loop: end of
stream, an `OSError`, or `is_done`. -/
def step (channel : Channel) : Event → Option Channel
  | .send bytes =>
      if channel.sock.shut || channel.sock.closed then some channel
      else some { channel with queue := channel.queue ++ bytes }
  | .recv size =>
      if channel.attached ∧ channel.sock.closed = false ∧
          0 < size ∧ size ≤ 4096 ∧ size ≤ channel.queue.length then
        some (receive { channel with queue := channel.queue.drop size }
          (channel.queue.take size))
      else none
  | .leave => if channel.attached then some { channel with attached := false } else none

/-- Since `start` the session has passed on the decoding of `data` and nothing
else, and it still runs only if that has not detached it. -/
structure Passed (start now : Channel) (data : List UInt8) : Prop where
  same : now.sock = start.sock ∧ now.readOnly = start.readOnly
  queue : start.queue = data ++ now.queue
  written : start.readOnly = false →
    now.written = start.written ++ (decode start.escape [] data).out
  unwritten : start.readOnly = true → now.written = start.written
  running : start.readOnly = false → now.attached = true →
    (decode start.escape [] data).detached = false ∧
      now.escape = (decode start.escape [] data).escape

theorem Passed.refl (start : Channel) : Passed start start [] where
  same := ⟨rfl, rfl⟩
  queue := rfl
  written _ := (List.append_nil _).symm
  unwritten _ := rfl
  running _ _ := ⟨rfl, rfl⟩

theorem Passed.step {start now next : Channel} {data : List UInt8} {event : Event}
    (h : Passed start now data) (hshut : start.sock.shut = true)
    (hstep : step now event = some next) : ∃ more, Passed start next (data ++ more) := by
  cases event with
  | send bytes =>
      have hnow : now.sock.shut = true := by rw [h.same.1, hshut]
      rw [ConsoleSession.step, hnow, Bool.true_or, if_pos rfl] at hstep
      cases hstep
      exact ⟨[], by rwa [List.append_nil]⟩
  | leave =>
      rw [ConsoleSession.step] at hstep
      split at hstep
      · cases hstep
        refine ⟨[], ?_⟩
        rw [List.append_nil]
        exact ⟨h.same, h.queue, h.written, h.unwritten, fun _ hattached => by cases hattached⟩
      · cases hstep
  | recv size =>
      rw [ConsoleSession.step] at hstep
      split at hstep
      · rename_i hready
        cases hstep
        refine ⟨now.queue.take size, ?_⟩
        have hqueue : start.queue = data ++ now.queue.take size ++ now.queue.drop size := by
          rw [List.append_assoc, List.take_append_drop, h.queue]
        cases hmode : start.readOnly with
        | true =>
            have hnow : now.readOnly = true := by rw [h.same.2, hmode]
            rw [receive, if_pos hnow]
            exact ⟨h.same, hqueue, (by simp [hmode]), h.unwritten, (by simp [hmode])⟩
        | false =>
            have hnow : now.readOnly = false := by rw [h.same.2, hmode]
            obtain ⟨hdetached, hescape⟩ := h.running hmode hready.1
            have hdecode := decode_resume hdetached hescape (now.queue.take size)
            rw [receive, if_neg (by simp [hnow])]
            refine ⟨h.same, hqueue, fun _ => ?_, fun hread => ?_, fun _ hattached => ?_⟩
            · show now.written ++ (decode now.escape [] (now.queue.take size)).out = _
              rw [hdecode, h.written hmode, List.append_assoc]
            · exact absurd hread (by simp [hmode])
            · rw [hdecode]
              exact ⟨Bool.not_eq_true' _ |>.mp hattached, rfl⟩
      · cases hstep

def PassedOn (start now : Channel) : Prop := ∃ data, Passed start now data

/-- A whole run of a session whose socket is shut down passes on a part of what
was queued before, whatever its client sends. -/
theorem passedOn_of_shut {start finish : Channel} {events : List Event}
    (hrun : Run step start events finish) (hshut : start.sock.shut = true) :
    PassedOn start finish := by
  have preserved : ∀ now event next, PassedOn start now → step now event = some next →
      PassedOn start next := by
    rintro now event next ⟨data, h⟩ hstep
    obtain ⟨more, h⟩ := h.step hshut hstep
    exact ⟨data ++ more, h⟩
  exact hrun.invariant preserved ⟨[], .refl start⟩

end Vnctlsd.Worker.ConsoleSession
