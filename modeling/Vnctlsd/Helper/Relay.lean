import Vnctlsd.Library.Transfer

/-! `bridge()`, the helper's relay between its standard streams and the socket of the
daemon, over any results of the system calls it makes. -/
namespace Vnctlsd.Helper
open Vnctlsd.Library.Transfer Vnctlsd.Library.Transition

abbrev Revents := BitVec 16

def pollin : Revents := 0x01
def pollerr : Revents := 0x08
def pollhup : Revents := 0x10
def pollnval : Revents := 0x20

def bufsize : Nat := 65536

/-- The calls that move no bytes; `poll` fills in the `revents` of `fds[0]`, stdin, and
of `fds[1]`, the socket. -/
inductive OtherCall where
  | poll (result : Result (Revents × Revents))
  | shutdown
  | close
  deriving DecidableEq

abbrev RelayCall := Call End OtherCall

/-- `buf`, which both directions use. -/
structure Buffer where
  bytes : List UInt8
  size : bytes.length = bufsize

/-- What a read of `data` leaves in the buffer. -/
def Buffer.fill (buf : Buffer) (data : List UInt8) (h : data.length ≤ bufsize) : Buffer where
  bytes := data ++ buf.bytes.drop data.length
  size := by rw [List.length_append, List.length_drop, buf.size]; omega

/-- The `r - w` bytes from `buf + w` on. -/
def Buffer.slice (buf : Buffer) (w r : Nat) : List UInt8 := (buf.bytes.take r).drop w

/-- The two blocks of the loop: from the socket to stdout, and from stdin to the socket. -/
inductive Block where
  | sock
  | stdin
  deriving DecidableEq

def Block.source : Block → End
  | .sock => .sock
  | .stdin => .stdin

def Block.sink : Block → End
  | .sock => .stdout
  | .stdin => .sock

/-- The ways out of the loop.  A write that gives -1 or 0 has failed, with `w` bytes
of `r` written. -/
inductive Exit where
  | pollFailed
  | pollError
  | readEnded (block : Block)
  | writeFailed (block : Block) (w r : Nat)
  deriving DecidableEq

/-- The call that comes next. -/
inductive RelayPc where
  | poll
  | read (block : Block)
  | write (block : Block) (w r : Nat)
  | shutdown (exit : Exit)
  | close (exit : Exit)
  | returned (exit : Exit)
  deriving DecidableEq

structure Relay where
  buf : Buffer
  revents : Revents × Revents
  pc : RelayPc

/-- Nothing is known of the buffer, nor of `revents` before the first `poll`. -/
def bridge (buf : Buffer) (revents : Revents × Revents) : Relay := ⟨buf, revents, .poll⟩

def readable (revents : Revents) : Bool := revents &&& (pollin ||| pollhup) != 0

def broken (revents : Revents × Revents) : Bool :=
  (revents.1 ||| revents.2) &&& (pollerr ||| pollnval) != 0

/-- Where control is after a block. -/
def afterBlock (revents : Revents × Revents) : Block → RelayPc
  | .sock => if readable revents.1 then .read .stdin else .poll
  | .stdin => .poll

def afterPoll (revents : Revents × Revents) : RelayPc :=
  if broken revents then .shutdown .pollError
  else if readable revents.2 then .read .sock
  else afterBlock revents .sock

/-- The test `w < r` of the inner loop. -/
def writeLoop (revents : Revents × Revents) (block : Block) (w r : Nat) : RelayPc :=
  if w < r then .write block w r else afterBlock revents block

def onPoll (relay : Relay) : Result (Revents × Revents) → Relay
  | .returned revents => { relay with revents := revents, pc := afterPoll revents }
  | .interrupted => relay
  | .failed => { relay with pc := .shutdown .pollFailed }

def onRead (relay : Relay) (block : Block) : Result (List UInt8) → Option Relay
  | .returned data =>
      if h : data.length ≤ bufsize then
        some { relay with
          buf := relay.buf.fill data h
          pc := if data = [] then .shutdown (.readEnded block)
            else writeLoop relay.revents block 0 data.length }
      else none
  | .interrupted => some relay
  | .failed => some { relay with pc := .shutdown (.readEnded block) }

def onWrite (relay : Relay) (block : Block) (w r : Nat) : Result Nat → Option Relay
  | .returned count =>
      if count ≤ r - w then
        some { relay with
          pc := if count = 0 then .shutdown (.writeFailed block w r)
            else writeLoop relay.revents block (w + count) r }
      else none
  | .interrupted => some relay
  | .failed => some { relay with pc := .shutdown (.writeFailed block w r) }

/-- One system call.  A call that `bridge` does not make there, and a result that the
system does not give, is no step. -/
def relayStep (relay : Relay) (call : RelayCall) : Option Relay :=
  match relay.pc, call with
  | .poll, .other (.poll result) => some (onPoll relay result)
  | .read block, .read fd size result =>
      if fd = block.source ∧ size = bufsize then onRead relay block result else none
  | .write block w r, .write fd data result =>
      if fd = block.sink ∧ data = relay.buf.slice w r then onWrite relay block w r result else none
  | .shutdown exit, .other .shutdown => some { relay with pc := .close exit }
  | .close exit, .other .close => some { relay with pc := .returned exit }
  | _, _ => none

/-- How the loop has ended, if it has. -/
def Relay.exit (relay : Relay) : Option Exit :=
  match relay.pc with
  | .shutdown exit | .close exit | .returned exit => some exit
  | _ => none

def Exit.isWriteFailure : Exit → Bool
  | .writeFailed _ _ _ => true
  | _ => false

def Exit.rest (exit : Exit) (buf : Buffer) (block : Block) : List UInt8 :=
  match exit with
  | .writeFailed block' w r => if block' = block then buf.slice w r else []
  | _ => []

/-- What has been read in one direction and not been written. -/
def Relay.pending (relay : Relay) (block : Block) : List UInt8 :=
  match relay.pc with
  | .write block' w r => if block' = block then relay.buf.slice w r else []
  | .shutdown exit | .close exit | .returned exit => exit.rest relay.buf block
  | _ => []

@[simp] theorem slice_fill (buf : Buffer) (data : List UInt8) (h : data.length ≤ bufsize) :
    (buf.fill data h).slice 0 data.length = data := List.take_left

theorem slice_eq_nil (buf : Buffer) {w r : Nat} (h : r ≤ w) : buf.slice w r = [] :=
  List.drop_eq_nil_of_le (Nat.le_trans (List.length_take_le r buf.bytes) h)

theorem drop_slice (buf : Buffer) (w r count : Nat) :
    (buf.slice w r).drop count = buf.slice (w + count) r := List.drop_drop ..

theorem afterBlock_cases (revents : Revents × Revents) (block : Block) :
    afterBlock revents block = .poll ∨ ∃ next, afterBlock revents block = .read next := by
  cases block with
  | stdin => exact .inl rfl
  | sock =>
      cases hreadable : readable revents.1 with
      | false => exact .inl (if_neg (by simp [hreadable]))
      | true => exact .inr ⟨.stdin, if_pos hreadable⟩

theorem pending_afterBlock (buf : Buffer) (revents revents' : Revents × Revents)
    (block block' : Block) :
    (Relay.mk buf revents' (afterBlock revents block)).pending block' = [] := by
  obtain h | ⟨next, h⟩ := afterBlock_cases revents block <;> rw [h] <;> rfl

theorem afterPoll_cases (revents : Revents × Revents) :
    afterPoll revents = .shutdown .pollError ∨ afterPoll revents = .poll ∨
      ∃ next, afterPoll revents = .read next := by
  unfold afterPoll
  split
  · exact .inl rfl
  · split
    · exact .inr (.inr ⟨.sock, rfl⟩)
    · exact .inr (afterBlock_cases revents .sock)

theorem pending_afterPoll (buf : Buffer) (revents : Revents × Revents) (block : Block) :
    (Relay.mk buf revents (afterPoll revents)).pending block = [] := by
  obtain h | h | ⟨next, h⟩ := afterPoll_cases revents <;> rw [h] <;> rfl

/-- The inner loop is left when there is nothing more to write. -/
theorem pending_writeLoop (buf : Buffer) (revents revents' : Revents × Revents)
    (block block' : Block) (w r : Nat) :
    (Relay.mk buf revents' (writeLoop revents block w r)).pending block' =
      if block = block' then buf.slice w r else [] := by
  unfold writeLoop
  split
  · rfl
  · rw [pending_afterBlock, slice_eq_nil buf (by omega), ite_self]

/-- What one call does, by the call that is due. -/
inductive RelayMove (relay : Relay) : RelayCall → Relay → Prop where
  | poll (result : Result (Revents × Revents)) : relay.pc = .poll →
      RelayMove relay (.other (.poll result)) (onPoll relay result)
  | read {block : Block} {result : Result (List UInt8)} {next : Relay} :
      relay.pc = .read block → onRead relay block result = some next →
      RelayMove relay (.read block.source bufsize result) next
  | write {block : Block} {w r : Nat} {result : Result Nat} {next : Relay} :
      relay.pc = .write block w r → onWrite relay block w r result = some next →
      RelayMove relay (.write block.sink (relay.buf.slice w r) result) next
  | shutdown {exit : Exit} : relay.pc = .shutdown exit →
      RelayMove relay (.other .shutdown) { relay with pc := .close exit }
  | close {exit : Exit} : relay.pc = .close exit →
      RelayMove relay (.other .close) { relay with pc := .returned exit }

theorem relayMove_of_step {relay next : Relay} {call : RelayCall}
    (h : relayStep relay call = some next) : RelayMove relay call next := by
  unfold relayStep at h
  split at h
  case h_1 hpc =>
      cases h
      exact .poll _ hpc
  case h_2 hpc =>
      obtain ⟨⟨rfl, rfl⟩, hread⟩ := Option.ite_none_right_eq_some.mp h
      exact .read hpc hread
  case h_3 hpc =>
      obtain ⟨⟨rfl, rfl⟩, hwrite⟩ := Option.ite_none_right_eq_some.mp h
      exact .write hpc hwrite
  case h_4 hpc =>
      cases h
      exact .shutdown hpc
  case h_5 hpc =>
      cases h
      exact .close hpc
  case h_6 => cases h

theorem source_eq_iff (block block' : Block) : block.source = block'.source ↔ block = block' := by
  cases block <;> cases block' <;> decide

theorem sink_eq_iff (block block' : Block) : block.sink = block'.sink ↔ block = block' := by
  cases block <;> cases block' <;> decide

/-- A read leaves pending what it has read, in its own direction. -/
theorem pending_onRead {relay next : Relay} {block : Block} {result : Result (List UInt8)}
    (hpc : relay.pc = .read block) (h : onRead relay block result = some next)
    (block' : Block) (size : Nat) :
    next.pending block' =
      (Call.read block.source size result : RelayCall).taken block'.source := by
  cases result with
  | interrupted =>
      cases h
      simp only [Relay.pending, hpc, Call.taken]
  | failed =>
      cases h
      rfl
  | returned data =>
      simp only [onRead, Option.dite_none_right_eq_some, Option.some.injEq] at h
      obtain ⟨hdata, rfl⟩ := h
      simp only [Call.taken, source_eq_iff]
      by_cases hnil : data = []
      · subst hnil
        rw [if_pos rfl, ite_self]
        rfl
      · rw [if_neg hnil, pending_writeLoop, slice_fill]

/-- A write takes from the front of what is pending in its own direction. -/
theorem pending_onWrite {relay next : Relay} {block : Block} {w r : Nat} {result : Result Nat}
    (h : onWrite relay block w r result = some next)
    (hpc : relay.pc = .write block w r) (block' : Block) :
    relay.pending block' =
      (Call.write block.sink (relay.buf.slice w r) result : RelayCall).given block'.sink ++
        next.pending block' := by
  have hpending : relay.pending block' = if block = block' then relay.buf.slice w r else [] := by
    simp only [Relay.pending, hpc]
  cases result with
  | interrupted =>
      cases h
      rfl
  | failed =>
      cases h
      exact hpending
  | returned count =>
      simp only [onWrite, Option.ite_none_right_eq_some, Option.some.injEq] at h
      obtain ⟨-, rfl⟩ := h
      rw [hpending]
      simp only [Call.given, sink_eq_iff]
      by_cases hcount : count = 0
      · rw [if_pos hcount, hcount, List.take_zero, ite_self, List.nil_append]
        rfl
      · rw [if_neg hcount, pending_writeLoop, ← drop_slice]
        split
        · exact (List.take_append_drop count _).symm
        · rfl

/-- Step lemma: what is pending, what a call takes in and what it gives out balance in
either direction. -/
theorem relayStep_balanced {relay next : Relay} {call : RelayCall}
    (h : relayStep relay call = some next) (block : Block) :
    relay.pending block ++ call.taken block.source =
      call.given block.sink ++ next.pending block := by
  cases relayMove_of_step h with
  | poll result hpc =>
      have hpending : relay.pending block = [] := by simp only [Relay.pending, hpc]
      rw [hpending]
      cases result with
      | interrupted => exact hpending.symm
      | failed => rfl
      | returned revents => exact (pending_afterPoll relay.buf revents block).symm
  | read hpc hread =>
      have hpending : relay.pending block = [] := by simp only [Relay.pending, hpc]
      rw [hpending, pending_onRead hpc hread]
      rfl
  | write hpc hwrite =>
      rw [pending_onWrite hwrite hpc]
      exact List.append_nil _
  | shutdown hpc | close hpc =>
      simp only [Relay.pending, hpc, Call.taken, Call.given, List.append_nil, List.nil_append]

/-- Run lemma: in either direction everything read has been written, but for what is
pending. -/
theorem relay_owed {buf : Buffer} {revents : Revents × Revents} {calls : List RelayCall}
    {relay : Relay} (hrun : Run relayStep (bridge buf revents) calls relay) (block : Block) :
    Owed block.source block.sink calls (relay.pending block) := by
  unfold Owed received delivered
  exact balance_of_run (fun _ _ _ h => relayStep_balanced h block) hrun rfl

/-- Only a failed write leaves the loop with something pending. -/
theorem pending_of_exit {relay : Relay} {exit : Exit} (hexit : relay.exit = some exit)
    (hwritten : exit.isWriteFailure = false) (block : Block) : relay.pending block = [] := by
  have hrest : exit.rest relay.buf block = [] := by
    cases exit with
    | writeFailed => cases hwritten
    | pollFailed | pollError | readEnded => rfl
  unfold Relay.exit at hexit
  unfold Relay.pending
  split at hexit <;> cases hexit <;> simp only [*]

/-- The inner loop stays within what was read, and that within the buffer; no write
has failed. -/
def RelayPc.Sound : RelayPc → Prop
  | .write _ w r => w < r ∧ r ≤ bufsize
  | .shutdown exit | .close exit | .returned exit => exit.isWriteFailure = false
  | _ => True

theorem sound_afterPoll (revents : Revents × Revents) : (afterPoll revents).Sound := by
  obtain h | h | ⟨next, h⟩ := afterPoll_cases revents <;> rw [h]
  · rfl
  · trivial
  · trivial

theorem sound_writeLoop (revents : Revents × Revents) (block : Block) {w r : Nat}
    (hr : r ≤ bufsize) : (writeLoop revents block w r).Sound := by
  unfold writeLoop
  split
  · exact ⟨‹_›, hr⟩
  · obtain h | ⟨next, h⟩ := afterBlock_cases revents block <;> rw [h] <;> trivial

theorem length_slice (buf : Buffer) (w : Nat) {r : Nat} (hr : r ≤ bufsize) :
    (buf.slice w r).length = r - w := by
  rw [Buffer.slice, List.length_drop, List.length_take, buf.size, Nat.min_eq_left hr]

/-- A write fails only if it takes nothing. -/
theorem relayStep_sound {relay next : Relay} {call : RelayCall} (hlegal : call.Legal)
    (h : relayStep relay call = some next) (hsound : relay.pc.Sound) : next.pc.Sound := by
  cases relayMove_of_step h with
  | shutdown hpc | close hpc =>
      rw [hpc] at hsound
      exact hsound
  | poll result hpc =>
      cases result with
      | interrupted => exact hsound
      | failed => rfl
      | returned revents => exact sound_afterPoll revents
  | @read block result _ hpc hread =>
      cases result with
      | interrupted =>
          cases hread
          exact hsound
      | failed =>
          cases hread
          rfl
      | returned data =>
          simp only [onRead, Option.dite_none_right_eq_some, Option.some.injEq] at hread
          obtain ⟨hdata, rfl⟩ := hread
          dsimp only
          split
          · rfl
          · exact sound_writeLoop relay.revents block hdata
  | @write block w r result _ hpc hwrite =>
      rw [hpc] at hsound
      obtain ⟨hless, hr⟩ := hsound
      cases result with
      | interrupted | failed => exact hlegal.elim
      | returned count =>
          simp only [onWrite, Option.ite_none_right_eq_some, Option.some.injEq] at hwrite
          obtain ⟨-, rfl⟩ := hwrite
          have hpos : 0 < count := by
            refine hlegal.2 (List.ne_nil_of_length_pos ?_)
            rw [length_slice relay.buf w hr]
            omega
          dsimp only
          rw [if_neg (Nat.ne_of_gt hpos)]
          exact sound_writeLoop relay.revents block hr

/-- A run whose writes all take something does not end in a failed one. -/
theorem written_of_legal {buf : Buffer} {revents : Revents × Revents} {calls : List RelayCall}
    {relay : Relay} (hrun : Run relayStep (bridge buf revents) calls relay)
    (hlegal : ∀ call ∈ calls, call.Legal) {exit : Exit} (hexit : relay.exit = some exit) :
    exit.isWriteFailure = false := by
  have hstart : (bridge buf revents).pc.Sound := trivial
  have hsound : relay.pc.Sound := (hrun.guarded hlegal).invariant
    (fun _ _ _ hsound hcall hstep => relayStep_sound hcall hstep hsound) hstart
  unfold Relay.exit at hexit
  split at hexit <;> cases hexit
  all_goals
    rename_i hpc
    rw [hpc] at hsound
    exact hsound

/-- However the calls come out, what has been written is at every moment a prefix of
what has been read, in both directions, and all of it once the loop has ended, unless
a write has failed. -/
theorem relay_faithful {buf : Buffer} {revents : Revents × Revents} {calls : List RelayCall}
    {relay : Relay} (hrun : Run relayStep (bridge buf revents) calls relay) :
    delivered .stdout calls <+: received .sock calls ∧
      delivered .sock calls <+: received .stdin calls ∧
      ∀ exit, relay.exit = some exit → exit.isWriteFailure = false →
        delivered .stdout calls = received .sock calls ∧
          delivered .sock calls = received .stdin calls := by
  refine ⟨(relay_owed hrun .sock).isPrefix, (relay_owed hrun .stdin).isPrefix, ?_⟩
  intro exit hexit hwritten
  have hcomplete : ∀ block : Block, Owed block.source block.sink calls [] := by
    intro block
    rw [← pending_of_exit hexit hwritten block]
    exact relay_owed hrun block
  exact ⟨(hcomplete .sock).complete, (hcomplete .stdin).complete⟩

def zeroed : Buffer := ⟨List.replicate bufsize 0, List.length_replicate⟩

/-- Three bytes from the daemon in two writes, one to it, and the end of stdin, with
signals between. -/
def exchange : List RelayCall :=
  [.other (.poll .interrupted), .other (.poll (.returned (0, pollin))),
    .read .sock bufsize .interrupted, .read .sock bufsize (.returned [1, 2, 3]),
    .write .stdout [1, 2, 3] (.returned 2), .write .stdout [3] .interrupted,
    .write .stdout [3] (.returned 1), .other (.poll (.returned (pollin, 0))),
    .read .stdin bufsize (.returned [4]), .write .sock [4] (.returned 1),
    .other (.poll (.returned (pollhup, 0))), .read .stdin bufsize (.returned [])]

theorem relay_faithful_exchange : ∃ relay, Run relayStep (bridge zeroed (0, 0)) exchange relay ∧
    relay.exit = some (.readEnded .stdin) ∧ delivered .stdout exchange = received .sock exchange ∧
    delivered .sock exchange = received .stdin exchange := by
  have hrun : ∃ relay, Run relayStep (bridge zeroed (0, 0)) exchange relay ∧
      relay.exit = some (.readEnded .stdin) := ⟨_, run_of_exec rfl, rfl⟩
  obtain ⟨relay, hrun, hexit⟩ := hrun
  exact ⟨relay, hrun, hexit, (relay_faithful hrun).2.2 _ hexit rfl⟩

end Vnctlsd.Helper
