import Vnctlsd.Worker.Detach

/-! The prompt behind a session: `sock_readline` reads byte by byte from where the
session stopped reading in chunks. -/
namespace Vnctlsd.Worker.SockReadline
open Vnctlsd.Library.Transition Vnctlsd.Library.Escapes Vnctlsd.Python.Text ConsoleSession Detach

inductive Line where
  | line (text : List UInt8)
  | interrupted
  | waiting (text : List UInt8)
  deriving DecidableEq

/-- One call on the bytes that are there: how it ends, what it has echoed, and the
bytes it leaves. -/
structure Call where
  result : Line
  echoed : List UInt8
  rest : List UInt8
  deriving DecidableEq

def Call.echo (echo : Bool) (bytes : List UInt8) (call : Call) : Call :=
  if echo then { call with echoed := bytes ++ call.echoed } else call

def readline (echo : Bool) (maxLen : Nat) (text : List UInt8) : List UInt8 → Call
  | [] => ⟨.waiting text, [], []⟩
  | b :: rest =>
      if b = 0x0d ∨ b = 0x0a then Call.echo echo [0x0d, 0x0a] ⟨.line text, [], rest⟩
      else if b = 0x7f ∨ b = 0x08 then
        if text = [] then readline echo maxLen text rest
        else (readline echo maxLen text.dropLast rest).echo echo [0x08, 0x20, 0x08]
      else if b = 0x03 then ⟨.interrupted, [], rest⟩
      else if text.length < maxLen then
        (readline echo maxLen (text ++ [b]) rest).echo echo [b]
      else readline echo maxLen text rest

def sockReadline (echo : Bool) (maxLen : Nat) (bytes : List UInt8) : Call :=
  readline echo maxLen [] bytes

def maxLine : Nat := 256

/-- The lines the prompt takes from the bytes that are there; a call that returns
one takes at least one byte. -/
def promptLines : Nat → List UInt8 → List (List UInt8)
  | 0, _ => []
  | fuel + 1, bytes =>
      let call := sockReadline true maxLine bytes
      match call.result with
      | .line text => text :: promptLines fuel call.rest
      | _ => []

def commandLines (bytes : List UInt8) : List (List UInt8) := promptLines bytes.length bytes

example : commandLines (ascii "lsx\x08 -l\x0dqu") = [ascii "ls -l"] := by decide

/-- What follows the `~.` is what `sock_readline` has to read, so the commands are
those of it. -/
structure NothingLost (following : List UInt8) (finish : Channel) : Prop where
  bytes : finish.queue = following
  lines : commandLines finish.queue = commandLines following

/-- A chunk ends after the first `n` bytes of the stream. -/
def ChunkEnds (events : List Event) (n : Nat) : Prop := ∃ k, ((sizes events).take k).sum = n

/-- The stream is cut behind its `~.`. -/
theorem stops_cut {s following : List UInt8} (h : Stops escapes s following) :
    ∃ front, s = front ++ following ∧ Detaches front := by
  obtain ⟨units, meant, hunits, rfl⟩ := h
  exact ⟨units ++ [escapes.mark, escapes.stop], by simp, [], units, meant, hunits, rfl⟩

/-- No keystroke is lost exactly when a chunk ends at the `~.` that detaches. -/
theorem nothingLost_iff {events : List Event} {finish : Channel} {following : List UInt8}
    (hrun : LiveRun (attach false) events finish) (hdetached : finish.attached = false)
    (hstops : Stops escapes (stream events) following) :
    NothingLost following finish ↔
      ChunkEnds events ((stream events).length - following.length) := by
  have hfollows := follows_of_run hrun
  obtain ⟨front, hsplit, hdetaches⟩ := stops_cut hstops
  have hfront : (stream events).length - following.length = front.length := by
    rw [hsplit, List.length_append, Nat.add_sub_cancel]
  have hqueue : finish.queue = following ↔ (sizes events).sum = front.length := by
    rw [hfollows.queue, hsplit]
    constructor
    · intro h
      have hlength := congrArg List.length h
      have htaken := hfollows.taken
      rw [hsplit, List.length_append] at htaken
      rw [List.length_drop, List.length_append] at hlength
      omega
    · intro h
      exact List.drop_left' h.symm
  rw [hfront]
  constructor
  · intro hkept
    refine ⟨(sizes events).length, ?_⟩
    rw [List.take_length]
    exact hqueue.mp hkept.bytes
  · rintro ⟨k, hk⟩
    have hlast : ¬ k < (sizes events).length := by
      intro hless
      have hearlier := (hfollows.ended rfl hdetached).2 k hless
      rw [hk, hsplit, List.take_left' rfl] at hearlier
      rw [detaches_iff, hearlier] at hdetaches
      cases hdetaches
    rw [List.take_of_length_le (Nat.le_of_not_lt hlast)] at hk
    have hbytes := hqueue.mpr hk
    exact ⟨hbytes, by rw [hbytes]⟩

def quitStream : List UInt8 := ascii "~.quit\x0d"

theorem stops_quitStream : Stops escapes quitStream (ascii "quit\x0d") :=
  stops_iff.mpr (by decide)

theorem nothingLost_iff_typed :
    ∃ finish, LiveRun (attach false) [.send quitStream, .recv 2] finish ∧
      NothingLost (ascii "quit\x0d") finish := by
  have hrun : LiveRun (attach false) [.send quitStream, .recv 2]
      ⟨⟨false, false⟩, false, ascii "quit\x0d", false, [], false⟩ :=
    .cons (by decide) rfl (.cons (by decide) rfl (.nil _))
  exact ⟨_, hrun, (nothingLost_iff hrun rfl stops_quitStream).mpr ⟨1, rfl⟩⟩

/-- The same bytes in one chunk: the command is gone. -/
theorem oneChunk_loses_command :
    ∃ finish, LiveRun (attach false) [.send quitStream, .recv 7] finish ∧
      finish.attached = false ∧ Stops escapes quitStream (ascii "quit\x0d") ∧
      commandLines (ascii "quit\x0d") = [ascii "quit"] ∧ commandLines finish.queue = [] ∧
      ¬ NothingLost (ascii "quit\x0d") finish := by
  refine ⟨⟨⟨false, false⟩, false, [], false, [], false⟩,
    .cons (by decide) rfl (.cons (by decide) rfl (.nil _)), rfl, stops_quitStream, by decide, rfl,
    ?_⟩
  intro hkept
  exact absurd hkept.bytes (by decide)

end Vnctlsd.Worker.SockReadline
