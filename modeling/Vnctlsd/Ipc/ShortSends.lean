import Mathlib.Algebra.GroupWithZero.Nat
import Vnctlsd.Ipc.Ownership

/-! The round trip over the socket pairs, with `sendmsg` as the system has it: on
a stream socket the call may return before it has taken all it was given. -/
namespace Vnctlsd.Ipc.ShortSends
open Vnctlsd.Library.ByteStream Vnctlsd.Python Ownership

variable {ρ : Type}

/-- One call of `ipc_send`; `taken` is the count `sendmsg` returns, where it is
called. -/
structure Sending (ρ : Type) where
  msg : PyVal
  fds : List ρ
  taken : Nat

def Sending.message (sending : Sending ρ) : PyVal × List ρ := (sending.msg, sending.fds)

/-- Without descriptors `sendall` goes on until the frame is out.  The count of
the one `sendmsg` is thrown away, and with it the rest of the frame. -/
def Sending.cells (codec : Codec) (sending : Sending ρ) : Py (List (Cell ρ)) := do
  let frame ← ipcSend codec sending.msg sending.fds
  pure (if sending.fds.isEmpty then frame else frame.take sending.taken)

def stream (codec : Codec) : List (Sending ρ) → Py (List (Cell ρ))
  | [] => .ok []
  | sending :: rest => do
      let cells ← sending.cells codec
      let others ← stream codec rest
      pure (cells ++ others)

def RoundTrip (codec : Codec) (sendings : List (Sending ρ)) (ended : Bool) (splits : List Nat) :
    Prop :=
  ∃ cells left, stream codec sendings = .ok cells ∧
    (recvAll codec sendings.length).run ⟨cells, ended, splits, []⟩ =
      .value (sendings.map Sending.message) ⟨[], ended, left, []⟩

/-- `sendmsg` takes the whole frame. -/
def TakenWhole (codec : Codec) (sending : Sending ρ) : Prop :=
  ∀ frame, ipcSend codec sending.msg sending.fds = .ok frame →
    sending.fds ≠ [] → frame.length ≤ sending.taken

def frameLength (codec : Codec) (message : PyVal × List ρ) : Nat :=
  match codec.dumps message.1 with
  | .ok payload => headerSize + payload.length
  | .error _ => 0

theorem length_ipcSend {codec : Codec} {msg : PyVal} {fds : List ρ} {frame : List (Cell ρ)}
    (h : ipcSend codec msg fds = .ok frame) : frame.length = frameLength codec (msg, fds) := by
  obtain ⟨payload, header, hdumps, hpack, rfl⟩ := ipcSend_spec h
  rw [List.length_append, length_sent, List.length_map, (unpackHeader_packHeader hpack).1]
  simp only [frameLength, hdumps]

theorem cells_spec {codec : Codec} {sending : Sending ρ} {cells : List (Cell ρ)}
    (h : sending.cells codec = .ok cells) :
    ∃ frame, ipcSend codec sending.msg sending.fds = .ok frame ∧
      cells = if sending.fds.isEmpty then frame else frame.take sending.taken := by
  obtain ⟨frame, hframe, h⟩ := bind_eq_ok.mp h
  exact ⟨frame, hframe, (Except.ok.inj h).symm⟩

theorem cells_of_takenWhole {codec : Codec} {sending : Sending ρ} (h : TakenWhole codec sending) :
    sending.cells codec = ipcSend codec sending.msg sending.fds := by
  unfold Sending.cells
  cases hframe : ipcSend codec sending.msg sending.fds with
  | error e => rfl
  | ok frame =>
      cases hfds : sending.fds with
      | nil => rfl
      | cons fd fds =>
          have hne : sending.fds ≠ [] := by
            rw [hfds]
            exact List.cons_ne_nil fd fds
          exact congrArg Except.ok (List.take_of_length_le (h frame hframe hne))

theorem stream_of_takenWhole {codec : Codec} {sendings : List (Sending ρ)}
    (h : ∀ sending ∈ sendings, TakenWhole codec sending) :
    stream codec sendings = sendAll codec (sendings.map Sending.message) := by
  induction sendings with
  | nil => rfl
  | cons sending rest ih =>
      rw [stream, cells_of_takenWhole (h sending (List.mem_cons_self ..)),
        ih fun s hs => h s (List.mem_cons_of_mem _ hs)]
      rfl

/-- The converse is by counting: no call puts more on the stream than its frame,
so a stream as long as all the frames has every frame whole. -/
theorem takenWhole_of_length {codec : Codec} {sendings : List (Sending ρ)}
    {cells : List (Cell ρ)} (h : stream codec sendings = .ok cells) :
    cells.length ≤ ((sendings.map Sending.message).map (frameLength codec)).sum ∧
      (cells.length = ((sendings.map Sending.message).map (frameLength codec)).sum →
        ∀ sending ∈ sendings, TakenWhole codec sending) := by
  induction sendings generalizing cells with
  | nil =>
      cases h
      exact ⟨Nat.le_refl 0, fun _ => nofun⟩
  | cons sending rest ih =>
      obtain ⟨first, hfirst, h⟩ := bind_eq_ok.mp h
      obtain ⟨others, hothers, h⟩ := bind_eq_ok.mp h
      obtain rfl := Except.ok.inj h
      obtain ⟨hle, hwhole⟩ := ih hothers
      obtain ⟨frame, hframe, rfl⟩ := cells_spec hfirst
      have hlength : frame.length = frameLength codec sending.message := length_ipcSend hframe
      have htake : (if sending.fds.isEmpty then frame else frame.take sending.taken).length ≤
          frame.length := by
        split
        · exact Nat.le_refl _
        · exact List.length_take_le' ..
      simp only [List.length_append, List.map_cons, List.sum_cons, ← hlength]
      refine ⟨Nat.add_le_add htake hle, fun hsum => ?_⟩
      intro s hs
      rcases List.mem_cons.mp hs with rfl | hs
      · intro frame' hframe' hfds
        obtain rfl := Except.ok.inj (hframe.symm.trans hframe')
        rw [List.isEmpty_eq_false_iff.mpr hfds, if_neg Bool.false_ne_true,
          List.length_take] at hsum
        omega
      · exact hwhole (by omega) s hs

theorem recvBody_value {codec : Codec} {fdCount length : Nat} {arrived : List ρ}
    {source next : Source ρ} {message : PyVal × List ρ}
    (h : (recvBody codec fdCount length arrived).run source = .value message next) :
    length ≤ source.cells.length ∧
      codec.loads ((source.cells.take length).map Cell.byte) = .ok message.1 ∧
      next.cells = source.cells.drop length := by
  by_cases henough : length ≤ source.cells.length
  · refine ⟨henough, ?_⟩
    obtain ⟨splits, hread⟩ := readExactly_enough
      (⟨.eofError, "IPC socket closed during read"⟩ : PyExc) (Nat.le_refl length) henough
    rw [recvBody, Reader.run_bind_value hread,
      Reader.run_bind_value (Reader.run_release ..)] at h
    dsimp only at h
    split at h
    · cases h
    · cases hloads : codec.loads ((source.cells.take length).map Cell.byte) with
      | error e =>
          rw [hloads, Reader.ofExcept, Reader.run_bind_raised (Reader.run_raise ..)] at h
          cases h
      | ok msg =>
          rw [hloads, Reader.ofExcept, Reader.run_bind_value (Reader.run_pure ..)] at h
          cases hget : msg.get "type" .none with
          | error e =>
              rw [hget, Reader.ofExcept, Reader.run_bind_raised (Reader.run_raise ..)] at h
              cases h
          | ok mtype =>
              rw [hget, Reader.ofExcept, Reader.run_bind_value (Reader.run_pure ..)] at h
              cases h
              exact ⟨rfl, rfl⟩
  · obtain ⟨e, stopped, -, hrun⟩ := recvBody_short codec arrived (Nat.lt_of_not_le henough)
    rw [hrun] at h
    split at h <;> cases h

/-- What a call of `ipc_recv` that returns has taken off the stream. -/
theorem ipcRecv_value {codec : Codec} {source next : Source ρ} {message : PyVal × List ρ}
    (h : (ipcRecv codec).run source = .value message next) :
    ∃ payload, codec.loads payload = .ok message.1 ∧
      source.cells.length = headerSize + payload.length + next.cells.length := by
  by_cases hheader : HeaderThere source
  · obtain ⟨splits, hrun⟩ := ipcRecv_there codec hheader
    rw [hrun] at h
    split at h
    · cases h
    · split at h
      · cases h
      · obtain ⟨henough, hloads, hnext⟩ := recvBody_value h
        refine ⟨_, hloads, ?_⟩
        unfold HeaderThere at hheader
        rw [hnext, List.length_map, List.length_take, Nat.min_eq_left henough, List.length_drop]
        rw [List.length_drop] at henough ⊢
        omega
  · obtain ⟨e, stopped, -, hrun⟩ := recvHeader_short hheader
    cases hended : source.ended with
    | false =>
        rw [hended, if_neg Bool.false_ne_true] at hrun
        rw [ipcRecv, Reader.run_bind_blocked hrun] at h
        cases h
    | true =>
        rw [hended, if_pos rfl] at hrun
        rw [ipcRecv, Reader.run_bind_raised hrun] at h
        cases h

/-- Reads a text only if it is the one that is written for what it says. -/
def Codec.strict (codec : Codec) : Codec where
  dumps := codec.dumps
  loads payload := do
    let msg ← codec.loads payload
    let text ← codec.dumps msg
    if text = payload then pure msg
    else raise .valueError "Expecting value: line 1 column 1 (char 0)"

theorem strict_loads {codec : Codec} {payload : List UInt8} {msg : PyVal}
    (h : (Codec.strict codec).loads payload = .ok msg) : codec.dumps msg = .ok payload := by
  obtain ⟨msg', -, h⟩ := bind_eq_ok.mp h
  obtain ⟨text, htext, h⟩ := bind_eq_ok.mp h
  split at h
  · cases h
    subst text
    exact htext
  · cases h

theorem strict_sendable {codec : Codec} {message : PyVal × List ρ} (h : Sendable codec message) :
    Sendable (Codec.strict codec) message := by
  obtain ⟨payload, hdumps, hlength, hloads⟩ := h.encoding
  refine ⟨h.isObject, ⟨payload, hdumps, hlength, ?_⟩, h.descriptors⟩
  simp only [Codec.strict, hloads, hdumps, bind, Except.bind, if_true]
  rfl

theorem recvAll_strict {codec : Codec} {messages : List (PyVal × List ρ)} {n : Nat}
    {source next : Source ρ}
    (h : (recvAll (Codec.strict codec) n).run source = .value messages next) :
    source.cells.length = (messages.map (frameLength codec)).sum + next.cells.length := by
  induction n generalizing messages source with
  | zero =>
      cases h
      simp
  | succ n ih =>
      rw [recvAll] at h
      cases hfirst : (ipcRecv (Codec.strict codec)).run source with
      | blocked =>
          rw [Reader.run_bind_blocked hfirst] at h
          cases h
      | raised e stopped =>
          rw [Reader.run_bind_raised hfirst] at h
          cases h
      | value message between =>
          rw [Reader.run_bind_value hfirst] at h
          cases hrest : (recvAll (Codec.strict codec) n).run between with
          | blocked =>
              rw [Reader.run_bind_blocked hrest] at h
              cases h
          | raised e stopped =>
              rw [Reader.run_bind_raised hrest] at h
              cases h
          | value others last =>
              rw [Reader.run_bind_value hrest] at h
              cases h
              obtain ⟨payload, hloads, hlength⟩ := ipcRecv_value hfirst
              have hframe : frameLength codec message = headerSize + payload.length := by
                simp only [frameLength, strict_loads hloads]
              rw [List.map_cons, List.sum_cons, hframe, hlength, ih hrest,
                ← Nat.add_assoc]

/-- The messages come back, each with its own descriptors, for every `json.loads`
that undoes `json.dumps`, exactly if `sendmsg` has taken every frame whole. -/
theorem roundTrip_iff_takenWhole (codec : Codec) (sendings : List (Sending ρ)) (ended : Bool)
    (splits : List Nat) (hsendable : ∀ sending ∈ sendings, Sendable codec sending.message) :
    (∀ loads, (∀ sending ∈ sendings, Sendable ⟨codec.dumps, loads⟩ sending.message) →
        RoundTrip ⟨codec.dumps, loads⟩ sendings ended splits) ↔
      ∀ sending ∈ sendings, TakenWhole codec sending := by
  constructor
  · intro h
    obtain ⟨cells, left, hstream, hrecv⟩ := h (Codec.strict codec).loads
      fun sending hmem => strict_sendable (hsendable sending hmem)
    have hlength := @recvAll_strict ρ codec _ _ _ _ hrecv
    exact (takenWhole_of_length hstream).2 hlength
  · intro h loads hloads
    have hmessages : ∀ message ∈ sendings.map Sending.message,
        Sendable ⟨codec.dumps, loads⟩ message := by
      intro message hmem
      obtain ⟨sending, hsending, rfl⟩ := List.mem_map.mp hmem
      exact hloads sending hsending
    obtain ⟨cells, left, hsend, hrecv⟩ :=
      recvAll_sendAll ⟨codec.dumps, loads⟩ (sendings.map Sending.message) ended splits hmessages
    refine ⟨cells, left, ?_, ?_⟩
    · rw [← hsend]
      exact stream_of_takenWhole h
    · rw [← hrecv, List.length_map]

def handOver (taken : Nat) : List (Sending Nat) := [⟨ready, [7, 9], taken⟩, ⟨ready, [], 0⟩]

theorem handOver_sendable (taken : Nat) :
    ∀ sending ∈ handOver taken, Sendable readyCodec sending.message := by
  intro sending hmem
  rcases List.mem_cons.mp hmem with rfl | hmem
  · exact ready_sendable [7, 9] (by decide)
  · rw [List.mem_singleton.mp hmem]
    exact ready_sendable [] (by decide)

theorem roundTrip_iff_takenWhole_ready :
    (∀ loads, (∀ sending ∈ handOver 22, Sendable ⟨readyCodec.dumps, loads⟩ sending.message) →
        RoundTrip ⟨readyCodec.dumps, loads⟩ (handOver 22) false [2, 0, 11]) ↔
      ∀ sending ∈ handOver 22, TakenWhole readyCodec sending :=
  roundTrip_iff_takenWhole readyCodec (handOver 22) false [2, 0, 11] (handOver_sendable 22)

/-- `sendmsg` has taken ten of the 22 bytes: the header of the next frame is read
as text of this one. -/
theorem handOver_torn :
    (∀ sending ∈ handOver 10, Sendable readyCodec sending.message) ∧
      ¬ RoundTrip readyCodec (handOver 10) true [] := by
  refine ⟨handOver_sendable 10, ?_⟩
  rintro ⟨cells, left, hstream, hrecv⟩
  obtain rfl := Except.ok.inj hstream
  cases hrecv

end Vnctlsd.Ipc.ShortSends
