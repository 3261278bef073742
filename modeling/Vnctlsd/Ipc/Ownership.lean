import Vnctlsd.Ipc.Framing

/-! Who owns the descriptors that came with a message once `ipc_recv` is done: the
caller has those that are returned, and the others ought to be closed. -/
namespace Vnctlsd.Ipc.Ownership
open Vnctlsd.Library.ByteStream Vnctlsd.Python

variable {ρ : Type}

/-- What `recvmsg` delivers with the first bytes of the stream. -/
def delivered (source : Source ρ) : List ρ :=
  match (recv headerSize : Reader ρ PyExc _).run source with
  | .value chunk _ => (chunk.flatMap Cell.attached).take maxFds
  | .raised _ _ | .blocked => []

/-- Every descriptor that was delivered is returned or closed, and none is both. -/
def Accounted (source : Source ρ) (returned : List ρ) (next : Source ρ) : Prop :=
  ∃ closed, next.released = source.released ++ closed ∧
    (returned ++ closed).Perm (delivered source)

def Settled (codec : Codec) (source : Source ρ) : Prop :=
  match (ipcRecv codec).run source with
  | .value message next => Accounted source message.2 next
  | .raised _ next => Accounted source [] next
  | .blocked => True

/-- The number of descriptors and the length that the stream begins with. -/
def header (source : Source ρ) : Nat × Nat :=
  unpackHeader ((source.cells.take headerSize).map Cell.byte)

def payload (source : Source ρ) : List UInt8 :=
  ((source.cells.drop headerSize).take (header source).2).map Cell.byte

def HeaderThere (source : Source ρ) : Prop := headerSize ≤ source.cells.length

structure WithinLimits (source : Source ρ) : Prop where
  fds : (header source).1 ≤ maxFds
  length : (header source).2 ≤ maxMsg

def PayloadThere (source : Source ρ) : Prop :=
  (header source).2 ≤ (source.cells.drop headerSize).length

theorem accounted_unreleased_iff {source next : Source ρ} (h : next.released = source.released) :
    Accounted source [] next ↔ delivered source = [] := by
  constructor
  · rintro ⟨closed, hclosed, hperm⟩
    rw [h, List.self_eq_append_right] at hclosed
    rw [hclosed] at hperm
    exact hperm.symm.eq_nil
  · intro hnone
    exact ⟨[], by rw [h, List.append_nil], by rw [hnone, List.append_nil]⟩

/-- The two ways out that close nothing. -/
theorem settled_of_stopped {codec : Codec} {source next : Source ρ} {e : PyExc}
    (hnext : next.released = source.released)
    (h : (ipcRecv codec).run source = if source.ended then .raised e next else .blocked) :
    Settled codec source ↔ source.ended = false ∨ delivered source = [] := by
  unfold Settled
  rw [h]
  cases source.ended with
  | false => simp
  | true => simp [accounted_unreleased_iff hnext]

theorem recvHeader_short {source : Source ρ} (h : ¬ HeaderThere source) :
    ∃ e next, next.released = source.released ∧ (recvHeader : Reader ρ PyExc _).run source =
      if source.ended then .raised e next else .blocked := by
  unfold HeaderThere at h
  by_cases hcells : source.cells = []
  · have hrecv := @recv_nil ρ PyExc headerSize source hcells
    refine ⟨⟨.eofError, "IPC socket closed"⟩, source, rfl, ?_⟩
    cases hended : source.ended with
    | false =>
        rw [hended, if_neg Bool.false_ne_true] at hrecv
        rw [recvHeader, Reader.run_bind_blocked hrecv, if_neg Bool.false_ne_true]
    | true =>
        rw [hended, if_pos rfl] at hrecv
        rw [recvHeader, Reader.run_bind_value hrecv, List.isEmpty_nil, if_pos rfl, if_pos rfl,
          Reader.run_raise]
  · obtain ⟨size, splits, hpos, -, hsize, hrecv⟩ :=
      @recv_spec ρ PyExc headerSize (by decide) source hcells
    obtain ⟨hlength, hchunk⟩ := take_chunk hpos hsize
    have hless : (source.cells.drop size).length < headerSize - size := by
      rw [List.length_drop]
      omega
    obtain ⟨splits', hmore⟩ := @readExactly_short ρ PyExc
      ⟨.eofError, "IPC closed during header read"⟩ headerSize _ (Nat.sub_le ..)
      { source with cells := source.cells.drop size, splits := splits } hless
    refine ⟨⟨.eofError, "IPC closed during header read"⟩,
      { source with cells := [], splits := splits' }, rfl, ?_⟩
    rw [recvHeader, Reader.run_bind_value hrecv, hchunk, if_neg Bool.false_ne_true, hlength]
    cases hended : source.ended with
    | false =>
        simp only [hended, Bool.false_eq_true, if_false] at hmore ⊢
        rw [Reader.run_bind_blocked hmore]
    | true =>
        simp only [hended, if_true] at hmore ⊢
        rw [Reader.run_bind_raised hmore]

theorem recvHeader_there {source : Source ρ} (h : HeaderThere source) :
    ∃ splits, recvHeader.run source = .value (header source, delivered source)
      { source with cells := source.cells.drop headerSize, splits := splits } := by
  unfold HeaderThere at h
  have hcells : source.cells ≠ [] := by
    intro hnil
    rw [hnil, List.length_nil] at h
    exact absurd h (by decide)
  obtain ⟨size, splits, hpos, hle, hsize, hrecv⟩ :=
    @recv_spec ρ PyExc headerSize (by decide) source hcells
  obtain ⟨hlength, hchunk⟩ := take_chunk hpos hsize
  have hdelivered : delivered source =
      ((source.cells.take size).flatMap Cell.attached).take maxFds := by
    rw [delivered, hrecv]
  obtain ⟨splits', hmore⟩ := @readExactly_enough ρ PyExc
    ⟨.eofError, "IPC closed during header read"⟩ headerSize (headerSize - size) (Nat.sub_le ..)
    { source with cells := source.cells.drop size, splits := splits }
    (by rw [List.length_drop]; omega)
  have htake : source.cells.take size ++ (source.cells.drop size).take (headerSize - size) =
      source.cells.take headerSize := by
    rw [← List.take_add, Nat.add_sub_cancel' hle]
  refine ⟨splits', ?_⟩
  rw [recvHeader, Reader.run_bind_value hrecv, hchunk, if_neg Bool.false_ne_true, hlength,
    Reader.run_bind_value hmore, Reader.run_pure, ← List.map_append, htake, List.drop_drop,
    Nat.add_sub_cancel' hle, ← hdelivered, header]

theorem ipcRecv_there (codec : Codec) {source : Source ρ} (h : HeaderThere source) :
    ∃ splits, (ipcRecv codec).run source =
      (if maxFds < (header source).1 then
        Reader.raise ⟨.valueError,
          s!"IPC: fd_count {(header source).1} exceeds maximum {maxFds}"⟩
      else if maxMsg < (header source).2 then
        Reader.raise ⟨.valueError,
          s!"IPC: payload length {(header source).2} exceeds maximum {maxMsg}"⟩
      else recvBody codec (header source).1 (header source).2 (delivered source)).run
        { source with cells := source.cells.drop headerSize, splits := splits } := by
  obtain ⟨splits, hheader⟩ := recvHeader_there h
  exact ⟨splits, by rw [ipcRecv, Reader.run_bind_value hheader]⟩

theorem recvBody_short (codec : Codec) {fdCount length : Nat} (arrived : List ρ)
    {source : Source ρ} (h : source.cells.length < length) :
    ∃ e next, next.released = source.released ∧ (recvBody codec fdCount length arrived).run source =
      if source.ended then .raised e next else .blocked := by
  obtain ⟨splits, hread⟩ := readExactly_short
    (⟨.eofError, "IPC socket closed during read"⟩ : PyExc) (Nat.le_refl length) h
  refine ⟨⟨.eofError, "IPC socket closed during read"⟩,
    { source with cells := [], splits := splits }, rfl, ?_⟩
  cases hended : source.ended with
  | false =>
      rw [hended, if_neg Bool.false_ne_true] at hread
      rw [recvBody, Reader.run_bind_blocked hread, if_neg Bool.false_ne_true]
  | true =>
      rw [hended, if_pos rfl] at hread
      rw [recvBody, Reader.run_bind_raised hread, if_pos rfl]

/-- A payload that is an object with fields. -/
def IsMessage (codec : Codec) (payload : List UInt8) : Prop :=
  ∃ entries, codec.loads payload = .ok (.dict entries)

/-- Behind the payload the extra descriptors are closed, whatever comes of the rest. -/
theorem recvBody_there (codec : Codec) {fdCount length : Nat} (arrived : List ρ)
    {source : Source ρ} (h : length ≤ source.cells.length) :
    ∃ next, next.released = source.released ++ (arrived.drop fdCount).reverse ∧
      ((fdCount ≤ arrived.length ∧
          IsMessage codec ((source.cells.take length).map Cell.byte) ∧
          ∃ msg, (recvBody codec fdCount length arrived).run source =
            .value (msg, arrived.take fdCount) next) ∨
        (¬ (fdCount ≤ arrived.length ∧
            IsMessage codec ((source.cells.take length).map Cell.byte)) ∧
          ∃ e, (recvBody codec fdCount length arrived).run source = .raised e next)) := by
  obtain ⟨splits, hread⟩ := readExactly_enough
    (⟨.eofError, "IPC socket closed during read"⟩ : PyExc) (Nat.le_refl length) h
  refine ⟨{ source with
    cells := source.cells.drop length
    splits := splits
    released := source.released ++ (arrived.drop fdCount).reverse }, rfl, ?_⟩
  rw [recvBody, Reader.run_bind_value hread, Reader.run_bind_value (Reader.run_release ..)]
  dsimp only
  rw [List.length_take]
  by_cases hcount : fdCount ≤ arrived.length
  · rw [Nat.min_eq_left hcount, if_neg (Nat.lt_irrefl fdCount)]
    cases hloads : codec.loads ((source.cells.take length).map Cell.byte) with
    | error e =>
        refine .inr ⟨?_, e, rfl⟩
        rintro ⟨-, entries, hentries⟩
        rw [hloads] at hentries
        cases hentries
    | ok msg =>
        rw [Reader.ofExcept, Reader.run_bind_value (Reader.run_pure ..)]
        cases msg with
        | dict entries => exact .inl ⟨hcount, ⟨entries, hloads⟩, _, rfl⟩
        | none | bool | int | float | str | list | pattern | date =>
            refine .inr ⟨?_, _, rfl⟩
            rintro ⟨-, entries, hentries⟩
            rw [hloads] at hentries
            cases hentries
  · rw [Nat.min_eq_right (by omega), if_pos (by omega)]
    exact .inr ⟨fun hboth => hcount hboth.1, _, rfl⟩

theorem perm_drop_iff {n : Nat} {items : List ρ} :
    (items.drop n).reverse.Perm items ↔ n = 0 ∨ items = [] := by
  constructor
  · intro hperm
    have hlength := hperm.length_eq
    rw [List.length_reverse, List.length_drop] at hlength
    by_cases hnil : items = []
    · exact .inr hnil
    · have hpos := List.length_pos_iff.mpr hnil
      exact .inl (by omega)
  · rintro (rfl | rfl)
    · exact List.reverse_perm items
    · rw [List.drop_nil]
      exact .nil

theorem settled_of_payloadThere (codec : Codec) {source : Source ρ} (hheader : HeaderThere source)
    (hlimits : WithinLimits source) (hpayload : PayloadThere source) :
    Settled codec source ↔ delivered source = [] ∨ (header source).1 = 0 ∨
      ((header source).1 ≤ (delivered source).length ∧ IsMessage codec (payload source)) := by
  obtain ⟨splits, hrun⟩ := ipcRecv_there codec hheader
  rw [if_neg (Nat.not_lt.mpr hlimits.fds), if_neg (Nat.not_lt.mpr hlimits.length)] at hrun
  obtain ⟨next, hnext, hcases⟩ := @recvBody_there ρ codec (header source).1 (header source).2
    (delivered source) { source with cells := source.cells.drop headerSize, splits := splits }
    hpayload
  unfold Settled
  rcases hcases with ⟨hcount, hmessage, msg, hbody⟩ | ⟨hnot, e, hbody⟩
  · rw [hrun, hbody]
    refine iff_of_true ⟨_, hnext, ?_⟩ (.inr (.inr ⟨hcount, hmessage⟩))
    have hreverse := List.reverse_perm ((delivered source).drop (header source).1)
    exact (hreverse.append_left _).trans (.of_eq (List.take_append_drop ..))
  · have hperm : Accounted source [] next ↔
        ((delivered source).drop (header source).1).reverse.Perm (delivered source) := by
      constructor
      · rintro ⟨closed, hclosed, hperm⟩
        rw [hnext] at hclosed
        rwa [List.append_cancel_left hclosed]
      · exact fun hperm => ⟨_, hnext, hperm⟩
    rw [hrun, hbody]
    refine hperm.trans (perm_drop_iff.trans ?_)
    constructor
    · rintro (hzero | hnone)
      · exact .inr (.inl hzero)
      · exact .inl hnone
    · rintro (hnone | hzero | hboth)
      · exact .inr hnone
      · exact .inl hzero
      · exact absurd hboth hnot

/-- No descriptor came; or the call still waits; or the frame is whole, within the limits,
and either declares no descriptors or brings as many as it declares and an object. -/
def Lossless (codec : Codec) (source : Source ρ) : Prop :=
  delivered source = [] ∨
  (source.ended = false ∧
    (HeaderThere source → WithinLimits source ∧ ¬ PayloadThere source)) ∨
  (HeaderThere source ∧ WithinLimits source ∧ PayloadThere source ∧
    ((header source).1 = 0 ∨
      ((header source).1 ≤ (delivered source).length ∧ IsMessage codec (payload source))))

theorem settled_of_unlimited {codec : Codec} {source : Source ρ} (hheader : HeaderThere source)
    (hlimits : ¬ WithinLimits source) : Settled codec source ↔ delivered source = [] := by
  obtain ⟨splits, hrun⟩ := ipcRecv_there codec hheader
  have hraised : ∃ e, (ipcRecv codec).run source =
      .raised e { source with cells := source.cells.drop headerSize, splits := splits } := by
    rw [hrun]
    by_cases hfds : maxFds < (header source).1
    · exact ⟨_, by rw [if_pos hfds, Reader.run_raise]⟩
    · have hlength : maxMsg < (header source).2 := by
        by_contra hle
        exact hlimits ⟨Nat.le_of_not_lt hfds, Nat.le_of_not_lt hle⟩
      exact ⟨_, by rw [if_neg hfds, if_pos hlength, Reader.run_raise]⟩
  obtain ⟨e, hraised⟩ := hraised
  unfold Settled
  rw [hraised]
  exact accounted_unreleased_iff rfl

theorem settled_of_truncated {codec : Codec} {source : Source ρ} (hheader : HeaderThere source)
    (hlimits : WithinLimits source) (hpayload : ¬ PayloadThere source) :
    Settled codec source ↔ source.ended = false ∨ delivered source = [] := by
  obtain ⟨splits, hrun⟩ := ipcRecv_there codec hheader
  rw [if_neg (Nat.not_lt.mpr hlimits.fds), if_neg (Nat.not_lt.mpr hlimits.length)] at hrun
  obtain ⟨e, next, hnext, hbody⟩ := @recvBody_short ρ codec (header source).1 (header source).2
    (delivered source) { source with cells := source.cells.drop headerSize, splits := splits }
    (Nat.lt_of_not_le hpayload)
  exact settled_of_stopped hnext (hrun.trans hbody)

/-- A call of `ipc_recv` settles what came with the message exactly when the message is
lossless. -/
theorem settled_iff (codec : Codec) (source : Source ρ) :
    Settled codec source ↔ Lossless codec source := by
  unfold Lossless
  by_cases hheader : HeaderThere source
  · by_cases hlimits : WithinLimits source
    · by_cases hpayload : PayloadThere source
      · rw [settled_of_payloadThere codec hheader hlimits hpayload]
        simp only [hheader, hlimits, hpayload, true_implies, not_true, and_false, false_or,
          true_and]
      · rw [settled_of_truncated hheader hlimits hpayload]
        simp only [hheader, hlimits, hpayload, true_implies, not_false_iff, and_true, false_and,
          and_false, or_false]
        exact Or.comm
    · rw [settled_of_unlimited hheader hlimits]
      simp only [hheader, hlimits, true_implies, false_and, and_false, or_false]
  · obtain ⟨e, next, hnext, hrun⟩ := recvHeader_short hheader
    have hstopped : (ipcRecv codec).run source =
        if source.ended then .raised e next else .blocked := by
      cases hended : source.ended with
      | false =>
          rw [hended, if_neg Bool.false_ne_true] at hrun
          rw [ipcRecv, Reader.run_bind_blocked hrun, if_neg Bool.false_ne_true]
      | true =>
          rw [hended, if_pos rfl] at hrun
          rw [ipcRecv, Reader.run_bind_raised hrun, if_pos rfl]
    rw [settled_of_stopped hnext hstopped]
    simp only [hheader, false_implies, and_true, false_and, or_false]
    exact Or.comm

/-- Two descriptors come with a payload that is no JSON text: both stay open. -/
theorem badPayload_leaks :
    ¬ Settled readyCodec ⟨sent [2, 0, 0, 0, 1, 0x78] [7, 9], false, [], []⟩ := by
  rintro ⟨closed, hclosed, hperm⟩
  have hnone : closed = [] := hclosed.symm
  have hlength := hperm.length_eq
  rw [hnone] at hlength
  exact absurd hlength (by decide)

end Vnctlsd.Ipc.Ownership
