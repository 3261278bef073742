import Vnctlsd.Library.ByteStream
import Vnctlsd.Python.Value

/-! Frames on the socket pairs between the processes: one byte for the number of
descriptors, four for the length of the payload, and the payload as JSON text.
The descriptors travel with the first byte of the call that sends them. -/
namespace Vnctlsd.Ipc
open Vnctlsd.Library.ByteStream Vnctlsd.Python

/-- `json.dumps(msg).encode()` and `json.loads(payload)`. -/
structure Codec where
  dumps : PyVal → Py (List UInt8)
  loads : List UInt8 → Py PyVal

def maxFds : Nat := 4
def maxMsg : Nat := 65536
def headerSize : Nat := 5

def packHeader (fdCount length : Nat) : Py (List UInt8) :=
  if 255 < fdCount then raise .structError "ubyte format requires 0 <= number <= 255"
  else if 0x100000000 ≤ length then
    raise .structError "'I' format requires 0 <= number <= 4294967295"
  else .ok [.ofNat fdCount, .ofNat (length / 0x1000000), .ofNat (length / 0x10000),
    .ofNat (length / 0x100), .ofNat length]

/-- `struct.unpack('>BI', header)`; the header has five bytes. -/
def unpackHeader : List UInt8 → Nat × Nat
  | [count, a, b, c, d] =>
      (count.toNat, ((a.toNat * 256 + b.toNat) * 256 + c.toNat) * 256 + d.toNat)
  | _ => (0, 0)

variable {ρ : Type}

def plain (byte : UInt8) : Cell ρ := ⟨byte, []⟩

/-- One `sendmsg` or `sendall` as it lies in the stream. -/
def sent (bytes : List UInt8) (fds : List ρ) : List (Cell ρ) :=
  match bytes with
  | [] => []
  | byte :: rest => ⟨byte, fds⟩ :: rest.map plain

/-- `ipc_send`: what one message adds to the stream, where `sendmsg`, which is
called once for a message with descriptors, takes the whole frame. -/
def ipcSend (codec : Codec) (msg : PyVal) (fds : List ρ) : Py (List (Cell ρ)) := do
  let payload ← codec.dumps msg
  let header ← packHeader fds.length payload.length
  let _ ← msg.get "type" .none
  pure (sent (header ++ payload) fds)

/-- The header and the descriptors that came with it; `recvmsg` has room for
four of them. -/
def recvHeader : Reader ρ PyExc ((Nat × Nat) × List ρ) := do
  let chunk ← recv headerSize
  if chunk.isEmpty then Reader.raise ⟨.eofError, "IPC socket closed"⟩
  else do
    let more ← readExactly ⟨.eofError, "IPC closed during header read"⟩ headerSize
      (headerSize - chunk.length)
    pure (unpackHeader (chunk.map Cell.byte ++ more), (chunk.flatMap Cell.attached).take maxFds)

/-- The rest of `ipc_recv`: descriptors beyond the declared number are closed
from the last one on. -/
def recvBody (codec : Codec) (fdCount length : Nat) (arrived : List ρ) :
    Reader ρ PyExc (PyVal × List ρ) := do
  let payload ← readExactly ⟨.eofError, "IPC socket closed during read"⟩ length length
  Reader.release (arrived.drop fdCount).reverse
  let fds := arrived.take fdCount
  if fds.length < fdCount then
    let found := fds.length
    Reader.raise ⟨.valueError, s!"IPC: header declared {fdCount} fds but only {found} received"⟩
  else do
    let msg ← Reader.ofExcept (codec.loads payload)
    let _ ← Reader.ofExcept (msg.get "type" .none)
    pure (msg, fds)

def ipcRecv (codec : Codec) : Reader ρ PyExc (PyVal × List ρ) := do
  let ((fdCount, length), arrived) ← recvHeader
  if maxFds < fdCount then
    Reader.raise ⟨.valueError, s!"IPC: fd_count {fdCount} exceeds maximum {maxFds}"⟩
  else if maxMsg < length then
    Reader.raise ⟨.valueError, s!"IPC: payload length {length} exceeds maximum {maxMsg}"⟩
  else recvBody codec fdCount length arrived

def sendAll (codec : Codec) : List (PyVal × List ρ) → Py (List (Cell ρ))
  | [] => .ok []
  | message :: rest => do
      let cells ← ipcSend codec message.1 message.2
      let others ← sendAll codec rest
      pure (cells ++ others)

def recvAll (codec : Codec) : Nat → Reader ρ PyExc (List (PyVal × List ρ))
  | 0 => pure []
  | n + 1 => do
      let message ← ipcRecv codec
      let others ← recvAll codec n
      pure (message :: others)

theorem unpackHeader_packHeader {fdCount length : Nat} {header : List UInt8}
    (h : packHeader fdCount length = .ok header) :
    header.length = headerSize ∧ unpackHeader header = (fdCount, length) := by
  unfold packHeader at h
  split at h
  · cases h
  · split at h
    · cases h
    · cases h
      refine ⟨rfl, ?_⟩
      simp only [unpackHeader, UInt8.toNat_ofNat']
      refine Prod.ext ?_ ?_ <;> simp only <;> omega

theorem sent_append {header : List UInt8} (h : header ≠ []) (payload : List UInt8)
    (fds : List ρ) : sent (header ++ payload) fds = sent header fds ++ payload.map plain := by
  cases header with
  | nil => exact absurd rfl h
  | cons byte rest => simp [sent]

theorem length_sent (bytes : List UInt8) (fds : List ρ) :
    (sent bytes fds).length = bytes.length := by
  cases bytes <;> simp [sent]

theorem map_byte_plain (bytes : List UInt8) :
    (bytes.map (plain : UInt8 → Cell ρ)).map Cell.byte = bytes := by
  induction bytes with
  | nil => rfl
  | cons byte rest ih => simp [plain, ih]

theorem map_byte_sent (bytes : List UInt8) (fds : List ρ) :
    (sent bytes fds).map Cell.byte = bytes := by
  cases bytes with
  | nil => rfl
  | cons byte rest => rw [sent, List.map_cons, map_byte_plain]

/-- Any non-empty beginning of a sent block carries all its descriptors. -/
theorem attached_take_sent {bytes : List UInt8} (hbytes : bytes ≠ []) (fds : List ρ)
    {size : Nat} (hsize : 0 < size) :
    ((sent bytes fds).take size).flatMap Cell.attached = fds := by
  cases bytes with
  | nil => exact absurd rfl hbytes
  | cons byte rest =>
      cases size with
      | zero => exact absurd hsize (Nat.lt_irrefl 0)
      | succ size =>
          have hplain : ∀ cell ∈ (rest.map (plain : UInt8 → Cell ρ)).take size,
              cell.attached = [] := by
            intro cell hcell
            obtain ⟨byte', -, rfl⟩ := List.mem_map.mp (List.mem_of_mem_take hcell)
            rfl
          rw [sent, List.take_succ_cons, List.flatMap_cons,
            List.flatMap_eq_nil_iff.mpr hplain, List.append_nil]

/-- However `recvmsg` and `recv` cut the header, it is read whole, with the
descriptors of its own frame. -/
theorem recvHeader_sent {header : List UInt8} (hheader : header.length = headerSize)
    (fds : List ρ) {rest : List (Cell ρ)} {source : Source ρ}
    (h : source.cells = sent header fds ++ rest) :
    ∃ splits, recvHeader.run source = .value (unpackHeader header, fds.take maxFds)
      { source with cells := rest, splits := splits } := by
  have hlength : (sent header fds).length = headerSize := by rw [length_sent, hheader]
  have hheaderNe : header ≠ [] := by
    rintro rfl
    cases hheader
  have hne : sent header fds ≠ [] := List.ne_nil_of_length_pos (by rw [hlength]; decide)
  obtain ⟨size, splits, hpos, hsize, hrecv⟩ := @recv_append ρ PyExc _ rest hne source h
  have hdrop : ((sent header fds).drop size).length =
      headerSize - ((sent header fds).take size).length := by
    rw [List.length_drop, List.length_take, Nat.min_eq_left hsize, hlength]
  have hfuel : ((sent header fds).drop size).length ≤ headerSize := by
    rw [hdrop]
    exact Nat.sub_le _ _
  obtain ⟨splits', hmore⟩ := @readExactly_append ρ PyExc
    ⟨.eofError, "IPC closed during header read"⟩ _ rest headerSize hfuel
    { source with cells := (sent header fds).drop size ++ rest, splits := splits } rfl
  refine ⟨splits', ?_⟩
  have hchunk : ((sent header fds).take size).isEmpty = false := by
    rw [List.isEmpty_eq_false_iff]
    exact List.ne_nil_of_length_pos (by rw [List.length_take]; omega)
  rw [hlength] at hrecv
  rw [recvHeader, Reader.run_bind_value hrecv, hchunk, if_neg Bool.false_ne_true, ← hdrop,
    Reader.run_bind_value hmore, Reader.run_pure, ← List.map_append, List.take_append_drop,
    map_byte_sent, attached_take_sent hheaderNe fds hpos]

theorem ipcSend_spec {codec : Codec} {msg : PyVal} {fds : List ρ} {cells : List (Cell ρ)}
    (h : ipcSend codec msg fds = .ok cells) :
    ∃ payload header, codec.dumps msg = .ok payload ∧
      packHeader fds.length payload.length = .ok header ∧
      cells = sent header fds ++ payload.map plain := by
  obtain ⟨payload, hdumps, h⟩ := bind_eq_ok.mp h
  obtain ⟨header, hpack, h⟩ := bind_eq_ok.mp h
  obtain ⟨_, -, h⟩ := bind_eq_ok.mp h
  refine ⟨payload, header, hdumps, hpack, ?_⟩
  have hheader : header ≠ [] := by
    rintro rfl
    exact absurd (unpackHeader_packHeader hpack).1 (by decide)
  rw [← sent_append hheader]
  exact (Except.ok.inj h).symm

theorem recvBody_payload (codec : Codec) {payload : List UInt8} {fds : List ρ}
    {rest : List (Cell ρ)} {source : Source ρ}
    (h : source.cells = payload.map plain ++ rest) :
    ∃ splits, (recvBody codec fds.length payload.length fds).run source =
      ((Reader.ofExcept (codec.loads payload) : Reader ρ PyExc PyVal) >>= fun msg =>
        Reader.ofExcept (msg.get "type" .none) >>= fun _ => pure (msg, fds)).run
        { source with cells := rest, splits := splits } := by
  have hfuel : (payload.map (plain : UInt8 → Cell ρ)).length ≤ payload.length :=
    Nat.le_of_eq (List.length_map _)
  obtain ⟨splits, hread⟩ := readExactly_append
    (⟨.eofError, "IPC socket closed during read"⟩ : PyExc) hfuel h
  rw [List.length_map, map_byte_plain] at hread
  refine ⟨splits, ?_⟩
  rw [recvBody, Reader.run_bind_value hread, List.drop_length, List.take_length,
    List.reverse_nil,
    Reader.run_bind_value (Reader.run_release [] _), List.append_nil,
    if_neg (Nat.lt_irrefl fds.length)]

structure Sendable (codec : Codec) (message : PyVal × List ρ) : Prop where
  isObject : ∃ entries, message.1 = .dict entries
  encoding : ∃ payload, codec.dumps message.1 = .ok payload ∧ payload.length ≤ maxMsg ∧
    codec.loads payload = .ok message.1
  descriptors : message.2.length ≤ maxFds

theorem ipcSend_returns {codec : Codec} {msg : PyVal} {fds : List ρ} {payload : List UInt8}
    (hobject : ∃ entries, msg = .dict entries) (hdumps : codec.dumps msg = .ok payload)
    (hlength : payload.length < 0x100000000) (hfds : fds.length ≤ 255) :
    ∃ cells, ipcSend codec msg fds = .ok cells := by
  obtain ⟨entries, rfl⟩ := hobject
  simp only [ipcSend, hdumps, packHeader, if_neg (Nat.not_lt.mpr hfds),
    if_neg (Nat.not_le.mpr hlength), PyVal.get_dict, bind, Except.bind]
  exact ⟨_, rfl⟩

theorem ipcSend_sendable {codec : Codec} {message : PyVal × List ρ}
    (h : Sendable codec message) : ∃ cells, ipcSend codec message.1 message.2 = .ok cells := by
  obtain ⟨payload, hdumps, hlength, -⟩ := h.encoding
  exact ipcSend_returns h.isObject hdumps (Nat.lt_of_le_of_lt hlength (by decide))
    (Nat.le_trans h.descriptors (by decide))

theorem ipcRecv_ipcSend {codec : Codec} {message : PyVal × List ρ} {cells rest : List (Cell ρ)}
    (hmessage : Sendable codec message) (hsend : ipcSend codec message.1 message.2 = .ok cells)
    {source : Source ρ} (h : source.cells = cells ++ rest) :
    ∃ splits, (ipcRecv codec).run source =
      .value message { source with cells := rest, splits := splits } := by
  obtain ⟨⟨entries, hmsg⟩, ⟨payload, hdumps, hlength, hloads⟩, hfds⟩ := hmessage
  obtain ⟨payload', header, hdumps', hpack, rfl⟩ := ipcSend_spec hsend
  rw [hdumps] at hdumps'
  cases hdumps'
  obtain ⟨hheader, hunpack⟩ := unpackHeader_packHeader hpack
  rw [List.append_assoc] at h
  obtain ⟨splits, hread⟩ := recvHeader_sent hheader message.2 h
  have hbody : { source with cells := payload.map plain ++ rest, splits := splits }.cells =
      payload.map plain ++ rest := rfl
  obtain ⟨splits', hrecv⟩ := @recvBody_payload ρ codec payload message.2 rest _ hbody
  refine ⟨splits', ?_⟩
  rw [ipcRecv, Reader.run_bind_value hread, hunpack, List.take_of_length_le hfds]
  simp only [if_neg (Nat.not_lt.mpr hfds), if_neg (Nat.not_lt.mpr hlength)]
  rw [hrecv, hloads, Reader.ofExcept, Reader.run_bind_value (Reader.run_pure ..), hmsg,
    PyVal.get_dict, Reader.ofExcept, Reader.run_bind_value (Reader.run_pure ..), Reader.run_pure,
    ← hmsg]

/-- However the stream is cut into reads, the messages come back one by one,
each with its own descriptors, and nothing is left. -/
theorem recvAll_sendAll (codec : Codec) (messages : List (PyVal × List ρ)) (ended : Bool)
    (splits : List Nat) (hmessages : ∀ message ∈ messages, Sendable codec message) :
    ∃ cells left, sendAll codec messages = .ok cells ∧
      (recvAll codec messages.length).run ⟨cells, ended, splits, []⟩ =
        .value messages ⟨[], ended, left, []⟩ := by
  suffices hrest : ∃ cells, sendAll codec messages = .ok cells ∧ ∀ source : Source ρ,
      source.cells = cells → ∃ left, (recvAll codec messages.length).run source =
        .value messages { source with cells := [], splits := left } by
    obtain ⟨cells, hsend, hrecv⟩ := hrest
    obtain ⟨left, hleft⟩ := hrecv ⟨cells, ended, splits, []⟩ rfl
    exact ⟨cells, left, hsend, hleft⟩
  clear splits ended
  induction messages with
  | nil =>
      refine ⟨[], rfl, fun source hsource => ⟨source.splits, ?_⟩⟩
      rw [List.length_nil, recvAll, Reader.run_pure, ← hsource]
  | cons message messages ih =>
      have hmessage := hmessages message (List.mem_cons_self ..)
      obtain ⟨cells, hsend⟩ := ipcSend_sendable hmessage
      obtain ⟨others, hothers, hrecv⟩ := ih fun m hm => hmessages m (List.mem_cons_of_mem _ hm)
      refine ⟨cells ++ others, ?_, fun source hsource => ?_⟩
      · rw [sendAll, hsend, hothers]
        rfl
      · obtain ⟨splits, hfirst⟩ := ipcRecv_ipcSend hmessage hsend hsource
        obtain ⟨left, hleft⟩ := hrecv { source with cells := others, splits := splits } rfl
        refine ⟨left, ?_⟩
        rw [List.length_cons, recvAll, Reader.run_bind_value hfirst, Reader.run_bind_value hleft,
          Reader.run_pure]

def ready : PyVal := .ofFields [("type", .str "READY")]

def readyText : List UInt8 :=
  "\x7b\"type\": \"READY\"\x7d".toList.map fun c => .ofNat c.toNat

def readyCodec : Codec where
  dumps msg := if msg.eq ready then .ok readyText
    else raise .typeError "Object is not JSON serializable"
  loads payload := if payload = readyText then .ok ready
    else raise .valueError "Expecting value: line 1 column 1 (char 0)"

theorem ready_sendable (fds : List Nat) (h : fds.length ≤ maxFds) :
    Sendable readyCodec (ready, fds) :=
  ⟨⟨_, rfl⟩, ⟨readyText, rfl, by decide, rfl⟩, h⟩

end Vnctlsd.Ipc
