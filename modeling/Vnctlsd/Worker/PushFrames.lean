import Vnctlsd.Ipc.Interleaving
import Vnctlsd.Ipc.Ownership
import Vnctlsd.Library.ReadLoop
import Vnctlsd.Worker.PushLoop

/-! What the push listener gets of the frames that the monitor's signal handlers
push, one inside another or not.  `ipc_send` has no limit and `ipc_recv` refuses a
payload beyond its own before it reads it, and the listener goes on: the payload is
then read as headers, five bytes at a time.  A branch of the listener that raises ends
it.  Each frame is on the stream as a whole: no signal comes in the middle of a send. -/
namespace Vnctlsd.Worker.PushFrames
open Vnctlsd.Library.ByteStream Vnctlsd.Library.ReadLoop Vnctlsd.Python Vnctlsd.Ipc
open Monitor.Replication (Stores Files Depth Handler MonitorState Act perform configUpdate
  enforceReq sessionListReq)
open PushLoop (Limits World Arrival)
open Ownership (HeaderThere header delivered ipcRecv_there recvBody_there recvBody_short)
open Interleaving (JsonText Codec.WritesText)

/-- `except EOFError` ends the worker, `except Exception` goes on. -/
def ends (e : PyExc) : Bool := e.kind == .eofError

/-- The documented behaviour of `json.dumps`, whose text is ASCII, and of `json.loads`,
which raises no `EOFError`. -/
structure Documented (codec : Codec) : Prop where
  writes : Codec.WritesText codec
  reads : ∀ payload e, codec.loads payload = .error e → ends e = false

/-- `ipc_send` in a handler, whose exceptions are logged. -/
def wire (codec : Codec) (msg : PyVal) : List (Cell Nat) :=
  match ipcSend codec msg [] with
  | .ok cells => cells
  | .error _ => []

/-- What the monitor does, and all that it hands to `ipc_send` for the worker. -/
def pushes (rt : Runtime) (depth : Depth) (monitor : MonitorState) :
    List Act → Option (MonitorState × List PyVal)
  | [] => some (monitor, [])
  | act :: acts => do
      let (middle, pushed) ← perform rt depth monitor act
      let (final, others) ← pushes rt depth middle acts
      pure (final, pushed ++ others)

/-- The branch for what arrives, in a listener that goes on where none of it raises.
`answer` is what the calls made for a message answer. -/
def listen (limits : Limits) (rt : Runtime) (answer : World → List (Key × PyVal) → Arrival)
    (world : World) : Option (PyVal × List Nat) → Option World
  | some (.dict msg, _) =>
      let next := PushLoop.handle limits rt world (answer world msg)
      if next.listening then some next else none
  | _ => some world

/-- The message is not sent, or its payload is within the limit, or it is a whole
number of headers long. -/
def KeepsStep (codec : Codec) (msg : PyVal) : Prop :=
  ∀ payload, codec.dumps msg = .ok payload → payload.length < 0x100000000 →
    payload.length ≤ maxMsg ∨ headerSize ∣ payload.length

/-- What the call for a payload within the limit returns, or nothing for an exception. -/
def outcome (codec : Codec) (payload : List UInt8) : Option (PyVal × List Nat) :=
  match codec.loads payload with
  | .ok (.dict entries) => some (.dict entries, [])
  | _ => none

/-- What the turns over a message that keeps step get. -/
def results (codec : Codec) (msg : PyVal) : List (Option (PyVal × List Nat)) :=
  match codec.dumps msg with
  | .error _ => []
  | .ok payload =>
      if 0x100000000 ≤ payload.length then []
      else if payload.length ≤ maxMsg then [outcome codec payload]
      else List.replicate (payload.length / headerSize + 1) none

variable {codec : Codec} {source : Source Nat}

theorem raises_recvHeader : Raises (fun e => ends e = true)
    (recvHeader : Reader Nat PyExc ((Nat × Nat) × List Nat)) := by
  refine (raises_recv _ _).bind fun chunk => ?_
  split
  · exact raises_raise rfl
  · have hends : ends ⟨.eofError, "IPC closed during header read"⟩ = true := rfl
    exact (@raises_readExactly Nat PyExc (ends · = true) _ hends _ _).bind fun more =>
      raises_pure _ _

/-- A header that is not there whole is waited for, or ends the worker. -/
theorem turn_of_short (h : ¬ HeaderThere source) : turn (ipcRecv codec) ends source = none := by
  obtain ⟨e, next, -, hheader⟩ := Ownership.recvHeader_short h
  cases hended : source.ended with
  | false =>
      rw [hended, if_neg Bool.false_ne_true] at hheader
      simp only [turn, ipcRecv, Reader.run_bind_blocked hheader]
  | true =>
      rw [hended, if_pos rfl] at hheader
      have he : ends e = true := raises_recvHeader source e next hheader
      simp only [turn, ipcRecv, Reader.run_bind_raised hheader, he, if_true]

/-- A header beyond a limit is all that the call takes. -/
theorem turn_of_unlimited (hheader : HeaderThere source)
    (h : maxFds < (header source).1 ∨ maxMsg < (header source).2) :
    ∃ next, turn (ipcRecv codec) ends source = some (none, next) ∧
      next.cells = source.cells.drop headerSize := by
  obtain ⟨splits, hrun⟩ := ipcRecv_there codec hheader
  by_cases hfds : maxFds < (header source).1
  · rw [if_pos hfds, Reader.run_raise] at hrun
    exact ⟨_, turn_raised hrun rfl, rfl⟩
  · rw [if_neg hfds, if_pos (h.resolve_left hfds), Reader.run_raise] at hrun
    exact ⟨_, turn_raised hrun rfl, rfl⟩

theorem shrinks_recvBody (fdCount length : Nat) (arrived : List Nat) :
    Shrinks (recvBody codec fdCount length arrived) := by
  refine (shrinks_readExactly _ _ _).bind fun payload => (shrinks_release _).bind fun _ => ?_
  dsimp only
  split
  · exact shrinks_raise _
  · exact (shrinks_ofExcept _).bind fun msg => (shrinks_ofExcept _).bind fun _ => shrinks_pure _

/-- A call that the loop goes on behind has taken its header at least. -/
theorem consumes_ipcRecv (codec : Codec) : Consumes (ipcRecv (ρ := Nat) codec) ends := by
  intro source result next hturn
  by_cases hheader : HeaderThere source
  · have hless : (source.cells.drop headerSize).length < source.cells.length := by
      unfold HeaderThere at hheader
      have hpos : 0 < headerSize := by decide
      rw [List.length_drop]
      omega
    refine Nat.lt_of_le_of_lt ?_ hless
    obtain ⟨splits, hrun⟩ := ipcRecv_there codec hheader
    have hshrinks : ∀ reader : Reader Nat PyExc (PyVal × List Nat), Shrinks reader →
        (ipcRecv codec).run source = reader.run
          { source with cells := source.cells.drop headerSize, splits := splits } →
        next.cells.length ≤ (source.cells.drop headerSize).length := by
      intro reader hreader heq
      simp only [turn, heq] at hturn
      split at hturn
      · rename_i hvalue
        cases hturn
        exact hreader.value _ _ _ hvalue
      · rename_i hraised
        split at hturn
        · cases hturn
        · cases hturn
          exact hreader.raised _ _ _ hraised
      · cases hturn
    refine hshrinks _ ?_ hrun
    split
    · exact shrinks_raise _
    · split
      · exact shrinks_raise _
      · exact shrinks_recvBody _ _ _
  · rw [turn_of_short hheader] at hturn
    cases hturn

/-- Text in the place of a header declares more descriptors than are allowed. -/
theorem skips_text (codec : Codec) :
    Skips (ipcRecv codec) ends headerSize fun cell : Cell Nat => maxFds < cell.byte.toNat := by
  intro source cell rest hcells htext hsize
  apply turn_of_unlimited hsize
  left
  rw [hcells] at hsize
  match rest, hsize with
  | a :: b :: c :: d :: rest, _ =>
      rw [header, hcells]
      exact htext

theorem text_of_json {payload : List UInt8} (h : JsonText payload) :
    ∀ cell ∈ payload.map (plain : UInt8 → Cell Nat), maxFds < cell.byte.toNat := by
  intro cell hcell
  obtain ⟨byte, hbyte, rfl⟩ := List.mem_map.mp hcell
  exact Nat.lt_of_lt_of_le (by decide) (h.printable byte hbyte).1

/-- A frame on the wire. -/
structure Framed (codec : Codec) (msg : PyVal) (payload head : List UInt8) : Prop where
  dumps : codec.dumps msg = .ok payload
  small : payload.length < 0x100000000
  headed : head.length = headerSize
  unpacked : unpackHeader head = (0, payload.length)
  wired : wire codec msg = sent head [] ++ payload.map plain

/-- A dictionary is on the wire as a frame, or not at all. -/
theorem wire_cases (codec : Codec) (entries : List (Key × PyVal)) :
    (∃ payload head, Framed codec (.dict entries) payload head) ∨
      (wire codec (.dict entries) = [] ∧ ∀ payload, codec.dumps (.dict entries) = .ok payload →
        ¬ payload.length < 0x100000000) := by
  cases hsend : ipcSend (ρ := Nat) codec (.dict entries) [] with
  | ok cells =>
      obtain ⟨payload, head, hdumps, hpack, hcells⟩ := ipcSend_spec hsend
      obtain ⟨hheaded, hunpacked⟩ := unpackHeader_packHeader hpack
      refine .inl ⟨payload, head, hdumps, ?_, hheaded, hunpacked, by rw [wire, hsend, hcells]⟩
      by_contra hlarge
      rw [packHeader, if_neg (by decide), if_pos (Nat.le_of_not_lt hlarge)] at hpack
      cases hpack
  | error e =>
      refine .inr ⟨by rw [wire, hsend], fun payload hdumps hsmall => ?_⟩
      obtain ⟨cells, hcells⟩ :=
        @ipcSend_returns Nat _ _ [] _ ⟨entries, rfl⟩ hdumps hsmall (by decide)
      rw [hsend] at hcells
      cases hcells

variable {msg : PyVal} {payload head : List UInt8} {rest : List (Cell Nat)}

theorem Framed.length_wire (h : Framed codec msg payload head) :
    (wire codec msg).length = headerSize + payload.length := by
  rw [h.wired, List.length_append, length_sent, h.headed, List.length_map]

/-- A frame within the limit is taken whole. -/
theorem Framed.turn_fitting (h : Framed codec msg payload head) (hcodec : Documented codec)
    (hfits : payload.length ≤ maxMsg) (hsource : source.cells = wire codec msg ++ rest) :
    ∃ next, turn (ipcRecv codec) ends source = some (outcome codec payload, next) ∧
      next.cells = rest := by
  rw [h.wired, List.append_assoc] at hsource
  obtain ⟨splits, hread⟩ := recvHeader_sent h.headed ([] : List Nat) hsource
  obtain ⟨splits', hbody⟩ := @recvBody_payload Nat codec payload [] rest
    { source with cells := payload.map plain ++ rest, splits := splits } rfl
  have hrun : (ipcRecv codec).run source = (recvBody codec 0 payload.length []).run
      { source with cells := payload.map plain ++ rest, splits := splits } := by
    rw [ipcRecv, Reader.run_bind_value hread, h.unpacked]
    simp only [if_neg (Nat.not_lt.mpr (Nat.zero_le maxFds)), if_neg (Nat.not_lt.mpr hfits),
      List.take_nil]
  rw [List.length_nil] at hbody
  rw [hbody] at hrun
  rw [outcome]
  cases hloads : codec.loads payload with
  | error e =>
      rw [hloads, Reader.ofExcept, Reader.run_bind_raised (Reader.run_raise ..)] at hrun
      exact ⟨_, turn_raised hrun (hcodec.reads payload e hloads), rfl⟩
  | ok msg =>
      rw [hloads, Reader.ofExcept, Reader.run_bind_value (Reader.run_pure ..)] at hrun
      cases msg with
      | dict entries =>
          rw [PyVal.get_dict, Reader.ofExcept, Reader.run_bind_value (Reader.run_pure ..),
            Reader.run_pure] at hrun
          exact ⟨_, turn_value hrun, rfl⟩
      | none | bool | int | float | str | list | pattern | date =>
          exact ⟨_, turn_raised hrun rfl, rfl⟩

/-- Of a frame beyond the limit the header is taken, and nothing is got. -/
theorem Framed.turn_long (h : Framed codec msg payload head) (hlong : maxMsg < payload.length)
    (hsource : source.cells = wire codec msg ++ rest) :
    ∃ next, turn (ipcRecv codec) ends source = some (none, next) ∧
      next.cells = payload.map plain ++ rest := by
  rw [h.wired, List.append_assoc] at hsource
  obtain ⟨splits, hread⟩ := recvHeader_sent h.headed ([] : List Nat) hsource
  refine ⟨{ source with cells := payload.map plain ++ rest, splits := splits }, ?_, rfl⟩
  apply turn_raised (e := ⟨.valueError, _⟩)
  · rw [ipcRecv, Reader.run_bind_value hread, h.unpacked]
    simp only [if_neg (Nat.not_lt.mpr (Nat.zero_le maxFds)), if_pos hlong]
    exact Reader.run_raise ..
  · rfl

theorem Framed.results_eq (h : Framed codec msg payload head) :
    results codec msg = if payload.length ≤ maxMsg then [outcome codec payload]
      else List.replicate (payload.length / headerSize + 1) none := by
  simp only [results, h.dumps, if_neg (Nat.not_le.mpr h.small)]

/-- Behind a message that keeps step the loop is at the next. -/
theorem turns_over (hcodec : Documented codec) {entries : List (Key × PyVal)}
    (hkeeps : KeepsStep codec (.dict entries))
    (hsource : source.cells = wire codec (.dict entries) ++ rest) :
    ∃ mid, Turns (ipcRecv codec) ends source (results codec (.dict entries)) mid ∧
      mid.cells = rest := by
  rcases wire_cases codec entries with ⟨payload, head, framed⟩ | ⟨hnone, hlarge⟩
  · by_cases hfits : payload.length ≤ maxMsg
    · obtain ⟨next, hturn, hnext⟩ := framed.turn_fitting hcodec hfits hsource
      rw [framed.results_eq, if_pos hfits]
      exact ⟨next, .cons hturn (.nil next), hnext⟩
    · have hdvd := (hkeeps payload framed.dumps framed.small).resolve_left hfits
      have hcount : (payload.map (plain : UInt8 → Cell Nat)).length =
          headerSize * (payload.length / headerSize) := by
        rw [List.length_map, Nat.mul_div_cancel' hdvd]
      obtain ⟨next, hturn, hnext⟩ := framed.turn_long (Nat.lt_of_not_le hfits) hsource
      obtain ⟨mid, hmid, hrest⟩ := turns_of_skips (skips_text codec) (by decide)
        (text_of_json (hcodec.writes entries payload framed.dumps)) hcount hnext
      rw [framed.results_eq, if_neg hfits, List.replicate_succ]
      exact ⟨mid, .cons hturn hmid, hrest⟩
  · have hresults : results codec (.dict entries) = [] := by
      cases hdumps : codec.dumps (.dict entries) with
      | error e => simp only [results, hdumps]
      | ok payload =>
          simp only [results, hdumps, if_pos (Nat.le_of_not_lt (hlarge payload hdumps))]
    rw [hnone, List.nil_append] at hsource
    rw [hresults]
    exact ⟨source, .nil source, hsource⟩

theorem turns_over_all (hcodec : Documented codec) {messages : List PyVal}
    (hdicts : ∀ msg ∈ messages, ∃ entries, msg = .dict entries)
    (hkeeps : ∀ msg ∈ messages, KeepsStep codec msg)
    (hsource : source.cells = messages.flatMap (wire codec) ++ rest) :
    ∃ mid, Turns (ipcRecv codec) ends source (messages.flatMap (results codec)) mid ∧
      mid.cells = rest := by
  induction messages generalizing source with
  | nil => exact ⟨source, .nil source, hsource⟩
  | cons msg messages ih =>
      obtain ⟨⟨entries, rfl⟩, hothersDicts⟩ := List.forall_mem_cons.mp hdicts
      obtain ⟨hfirst, hothers⟩ := List.forall_mem_cons.mp hkeeps
      rw [List.flatMap_cons, List.append_assoc] at hsource
      obtain ⟨next, hnext, hcells⟩ := turns_over hcodec hfirst hsource
      obtain ⟨mid, hmid, hrest⟩ := ih hothersDicts hothers hcells
      exact ⟨mid, hnext.append hmid, hrest⟩

section

variable {σ : Type} {after : σ → Option (PyVal × List Nat) → Option σ} {state : σ}

/-- What follows a message that does not keep step at once is missed. -/
theorem missed_behind (hcodec : Documented codec) {entries : List (Key × PyVal)}
    (hkeeps : ¬ KeepsStep codec (.dict entries)) (hrest : headerSize ≤ rest.length)
    (hsource : source.cells = wire codec (.dict entries) ++ rest) (got : PyVal × List Nat) :
    ¬ Gets (ipcRecv codec) ends after state source rest.length got := by
  simp only [KeepsStep, not_forall, not_or, exists_prop] at hkeeps
  obtain ⟨text, hdumps, hsmall, hlong, hdvd⟩ := hkeeps
  rcases wire_cases codec entries with ⟨payload, head, framed⟩ | ⟨-, hnone⟩
  · obtain rfl : text = payload := Except.ok.inj (hdumps.symm.trans framed.dumps)
    obtain ⟨next, hturn, hnext⟩ := framed.turn_long (Nat.lt_of_not_le hlong) hsource
    have hleft : rest.length < source.cells.length := by
      rw [hsource, List.length_append, framed.length_wire]
      have hpos : 0 < headerSize := by decide
      omega
    rw [gets_next_iff hturn hleft]
    rintro ⟨state', -, hgets⟩
    exact not_gets_of_skips (skips_text codec) (consumes_ipcRecv codec) (by decide)
      (text_of_json (hcodec.writes entries text hdumps)) (by rwa [List.length_map]) hrest hnext
      after state' got hgets
  · exact absurd hsmall (hnone text hdumps)

/-- In step, a message is got exactly if it is within the limit. -/
theorem Framed.got_iff (h : Framed codec msg payload head) (hcodec : Documented codec)
    {arrived : List (Key × PyVal)} (hloads : codec.loads payload = .ok (.dict arrived))
    (hsource : source.cells = wire codec msg ++ rest) :
    Gets (ipcRecv codec) ends after state source (wire codec msg ++ rest).length
        (.dict arrived, []) ↔ payload.length ≤ maxMsg := by
  rw [← hsource, gets_here_iff (consumes_ipcRecv codec)]
  constructor
  · rintro ⟨next, hturn⟩
    by_contra hlong
    obtain ⟨next', hturn', -⟩ := h.turn_long (Nat.lt_of_not_le hlong) hsource
    rw [hturn] at hturn'
    cases hturn'
  · intro hfits
    obtain ⟨next, hturn, -⟩ := h.turn_fitting hcodec hfits hsource
    rw [outcome, hloads] at hturn
    exact ⟨next, hturn⟩

/-- Behind messages that keep step it is got exactly if the listener goes on behind all
of them, too. -/
theorem Framed.got_behind_iff (h : Framed codec msg payload head) (hcodec : Documented codec)
    {arrived : List (Key × PyVal)} (hloads : codec.loads payload = .ok (.dict arrived))
    {messages : List PyVal} (hdicts : ∀ msg ∈ messages, ∃ entries, msg = .dict entries)
    (hkeeps : ∀ msg ∈ messages, KeepsStep codec msg)
    (hsource : source.cells = messages.flatMap (wire codec) ++ (wire codec msg ++ rest)) :
    Gets (ipcRecv codec) ends after state source (wire codec msg ++ rest).length
        (.dict arrived, []) ↔
      payload.length ≤ maxMsg ∧ ((messages.flatMap (results codec)).foldlM after state).isSome := by
  obtain ⟨mid, hturns, hmid⟩ := turns_over_all hcodec hdicts hkeeps hsource
  rw [gets_behind_iff (consumes_ipcRecv codec) hturns (Nat.le_of_eq (by rw [hmid]))]
  constructor
  · rintro ⟨state', hstate, hgets⟩
    exact ⟨(h.got_iff hcodec hloads hmid).mp hgets, by rw [hstate]; rfl⟩
  · rintro ⟨hfits, hgoes⟩
    obtain ⟨state', hstate⟩ := Option.isSome_iff_exists.mp hgoes
    exact ⟨state', hstate, (h.got_iff hcodec hloads hmid).mpr hfits⟩

theorem missed_behind_all (hcodec : Documented codec) {messages : List PyVal}
    (hdicts : ∀ msg ∈ messages, ∃ entries, msg = .dict entries)
    (hkept : ∀ msg ∈ messages, KeepsStep codec msg) {entries : List (Key × PyVal)}
    (hkeeps : ¬ KeepsStep codec (.dict entries)) (hrest : headerSize ≤ rest.length)
    (hsource : source.cells =
      messages.flatMap (wire codec) ++ (wire codec (.dict entries) ++ rest))
    (got : PyVal × List Nat) :
    ¬ Gets (ipcRecv codec) ends after state source rest.length got := by
  obtain ⟨mid, hturns, hmid⟩ := turns_over_all hcodec hdicts hkept hsource
  have hleft : rest.length ≤ mid.cells.length := by
    rw [hmid, List.length_append]
    exact Nat.le_add_left ..
  rw [gets_behind_iff (consumes_ipcRecv codec) hturns hleft]
  rintro ⟨state', -, hgets⟩
  exact missed_behind hcodec hkeeps hrest hmid got hgets

end

variable {rt : Runtime} {depth : Depth} {monitor final : MonitorState} {pushed : List PyVal}

/-- A handler pushes dictionaries only. -/
theorem dicts_of_turn (rt : Runtime) (depth : Depth) (files : Files) (stores : Stores)
    (handler : Handler) :
    ∀ msg ∈ (Monitor.Replication.turn rt depth files stores handler).pushed,
      ∃ entries, msg = .dict entries := by
  have hnone : ∀ msg ∈ ([] : List PyVal), ∃ entries, msg = .dict entries :=
    fun msg hmsg => absurd hmsg List.not_mem_nil
  obtain ⟨signal, point⟩ := handler
  cases point with
  | readUsers | storeUsers loaded | readConsoles | storeConsoles loaded => exact hnone
  | strip =>
      rw [Monitor.Replication.turn]
      split <;> exact hnone
  | pushConfig raw => cases signal <;> exact fun msg hmsg => ⟨_, List.mem_singleton.mp hmsg⟩
  | copyMap =>
      rw [Monitor.Replication.turn]
      split <;> exact hnone
  | pushMap copy => exact fun msg hmsg => ⟨_, List.mem_singleton.mp hmsg⟩

theorem dicts_of_perform {act : Act} (h : perform rt depth monitor act = some (final, pushed)) :
    ∀ msg ∈ pushed, ∃ entries, msg = .dict entries := by
  cases act with
  | signal signal =>
      cases h
      exact fun msg hmsg => absurd hmsg List.not_mem_nil
  | sigusr1 =>
      cases h
      exact fun msg hmsg => ⟨_, List.mem_singleton.mp hmsg⟩
  | run files =>
      rw [perform] at h
      split at h
      · cases h
      · cases h
        exact dicts_of_turn rt depth files _ _

theorem dicts_of_pushes {acts : List Act}
    (h : pushes rt depth monitor acts = some (final, pushed)) :
    ∀ msg ∈ pushed, ∃ entries, msg = .dict entries := by
  induction acts generalizing monitor pushed with
  | nil =>
      cases h
      exact fun msg hmsg => absurd hmsg List.not_mem_nil
  | cons act acts ih =>
      obtain ⟨⟨middle, first⟩, hfirst, h⟩ := Option.bind_eq_some_iff.mp h
      obtain ⟨⟨last, others⟩, hothers, h⟩ := Option.bind_eq_some_iff.mp h
      cases h
      intro msg hmsg
      rcases List.mem_append.mp hmsg with hmsg | hmsg
      · exact dicts_of_perform hfirst msg hmsg
      · exact ih hothers msg hmsg

/-- A handler of SIGUSR2 pushes the configuration and behind it the request to enforce,
with whatever the handlers of other signals push in between.  However the stream is cut,
whatever follows and whatever the listener does with what it gets, the worker gets the
request exactly if its text is within the limit, that of the message before it is too,
or is five bytes times some number long, and the listener goes on behind every message
before. -/
theorem enforcement_arrives_iff {σ : Type} (after : σ → Option (PyVal × List Nat) → Option σ)
    (state : σ) {acts : List Act} {stores now : Stores} {outer : List Handler} {copy : PyVal}
    {before : List PyVal} {previous : PyVal} {payload : List UInt8} {arrived : List (Key × PyVal)}
    (hcodec : Documented codec)
    (hpushes : pushes rt depth ⟨stores, []⟩ acts =
      some (⟨now, ⟨.sigusr2, .pushMap copy⟩ :: outer⟩, before ++ [previous]))
    (hkept : ∀ msg ∈ before, KeepsStep codec msg)
    (hdumps : codec.dumps (enforceReq copy) = .ok payload)
    (hsent : payload.length < 0x100000000)
    (hloads : codec.loads payload = .ok (.dict arrived))
    (hsource : source.cells =
      (before ++ [previous, enforceReq copy]).flatMap (wire codec) ++ rest) :
    Gets (ipcRecv codec) ends after state source (wire codec (enforceReq copy) ++ rest).length
        (.dict arrived, []) ↔
      payload.length ≤ maxMsg ∧ KeepsStep codec previous ∧
        (((before ++ [previous]).flatMap (results codec)).foldlM after state).isSome := by
  have hdicts := dicts_of_pushes hpushes
  have hbefore := fun msg hmsg => hdicts msg (List.mem_append_left _ hmsg)
  obtain ⟨requested, hrequested⟩ : ∃ requested, enforceReq copy = .dict requested := ⟨_, rfl⟩
  rw [hrequested] at hdumps hsource ⊢
  rcases wire_cases codec requested with ⟨text, head, framed⟩ | ⟨-, hnone⟩
  · obtain rfl : text = payload := Except.ok.inj (framed.dumps.symm.trans hdumps)
    by_cases hkeeps : KeepsStep codec previous
    · have hall : ∀ msg ∈ before ++ [previous], KeepsStep codec msg :=
        List.forall_mem_append.mpr ⟨hkept, List.forall_mem_singleton.mpr hkeeps⟩
      rw [framed.got_behind_iff hcodec hloads hdicts hall (by rw [hsource]; simp)]
      exact and_congr_right' (and_iff_right hkeeps).symm
    · obtain ⟨entries, rfl⟩ := hdicts previous (List.mem_append_right _ (List.mem_singleton_self _))
      have hlength : headerSize ≤ (wire codec (.dict requested) ++ rest).length := by
        rw [List.length_append, framed.length_wire]
        omega
      refine iff_of_false (missed_behind_all hcodec hbefore hkept hkeeps hlength ?_ _) fun h =>
        hkeeps h.2.1
      rw [hsource]
      simp
  · exact absurd hsent (hnone payload hdumps)

def jsonKey : Key → List Char
  | .str key => '"' :: key.toList ++ ['"']
  | _ => "null".toList

mutual

/-- `json.dumps` of dictionaries, lists and strings that need no escapes. -/
def jsonText : PyVal → List Char
  | .str s => '"' :: s.toList ++ ['"']
  | .list items => '[' :: jsonItems items ++ [']']
  | .dict entries => '\x7b' :: (jsonMembers entries ++ ['\x7d'])
  | _ => "null".toList

def jsonItems : List PyVal → List Char
  | [] => []
  | [item] => jsonText item
  | item :: rest => jsonText item ++ ',' :: ' ' :: jsonItems rest

def jsonMembers : List (Key × PyVal) → List Char
  | [] => []
  | [(key, value)] => jsonKey key ++ ':' :: ' ' :: jsonText value
  | (key, value) :: rest =>
      jsonKey key ++ ':' :: ' ' :: jsonText value ++ ',' :: ' ' :: jsonMembers rest

end

def isPrintable (c : Char) : Bool := 0x20 ≤ c.toNat && c.toNat ≤ 0x7e

def bytes (text : List Char) : List UInt8 := text.map fun c => .ofNat c.toNat

def textCodec (arrived : List (Key × PyVal)) : Codec where
  dumps msg := if (jsonText msg).all isPrintable then .ok (bytes (jsonText msg))
    else raise .typeError "Object is not JSON serializable"
  loads payload := if payload = bytes (jsonText (.dict arrived)) then .ok (.dict arrived)
    else raise .jsonDecodeError "Expecting value: line 1 column 1 (char 0)"

theorem dumps_textCodec (arrived : List (Key × PyVal)) {msg : PyVal}
    (h : (jsonText msg).all isPrintable = true) :
    (textCodec arrived).dumps msg = .ok (bytes (jsonText msg)) := if_pos h

theorem loads_textCodec (arrived : List (Key × PyVal)) :
    (textCodec arrived).loads (bytes (jsonText (.dict arrived))) = .ok (.dict arrived) := if_pos rfl

theorem documented_textCodec (arrived : List (Key × PyVal)) : Documented (textCodec arrived) where
  writes entries payload h := by
    simp only [textCodec] at h
    split at h
    · rename_i hprintable
      cases h
      refine ⟨fun byte hbyte => ?_, bytes (jsonMembers entries), ?_⟩
      · obtain ⟨c, hc, rfl⟩ := List.mem_map.mp hbyte
        have hrange := List.all_eq_true.mp hprintable c hc
        rw [isPrintable, Bool.and_eq_true, decide_eq_true_iff, decide_eq_true_iff] at hrange
        rw [UInt8.toNat_ofNat']
        omega
      · rw [jsonText, bytes, List.map_cons, List.map_append]
        rfl
    · cases h
  reads payload e h := by
    simp only [textCodec] at h
    split at h
    · cases h
    · cases h
      rfl

/-- One console, its command as long as it may be. -/
def oneConsole (cmd : String) : PyVal := .ofFields [("consoles", .ofFields [
  ("lab01", .ofFields [("type", .str "exec"), ("cmd", .str cmd)])])]

def enforceGraduates : List (Key × PyVal) :=
  [(.str "type", .str "ENFORCE_REQ"), (.str "user_map", Monitor.Replication.graduates)]

theorem getRaw_oneConsole (cmd : String) :
    ConsoleConfigStore.getRaw (oneConsole cmd) = .ok (oneConsole cmd) := by
  have hpublic : ∀ key ∈ ["consoles", "lab01", "type", "cmd"],
      ConsoleConfigStore.isPrivate key = false := by decide
  simp only [List.forall_mem_cons] at hpublic
  obtain ⟨hconsoles, hlab, htype, hcmd, -⟩ := hpublic
  simp [ConsoleConfigStore.getRaw, oneConsole, PyVal.ofFields, ConsoleConfigStore.strip,
    ConsoleConfigStore.stripEntries, hconsoles, hlab, htype, hcmd, bind, Except.bind, pure,
    Except.pure]

/-- SIGUSR2 behind an edit that leaves the one console, up to the request. -/
def sigusr2Handled (cmd : String) : List Act :=
  .signal .sigusr2 ::
    List.replicate 7 (.run ⟨.ok Monitor.Replication.graduates, .ok (oneConsole cmd)⟩)

theorem pushes_sigusr2Handled (cmd : String) :
    pushes .plain Monitor.Replication.unbounded ⟨Monitor.Replication.labStores, []⟩
        (sigusr2Handled cmd) =
      some (⟨⟨Monitor.Replication.graduates, oneConsole cmd⟩,
        [⟨.sigusr2, .pushMap Monitor.Replication.graduates⟩]⟩,
        [] ++ [configUpdate (oneConsole cmd)]) := by
  have hload : Monitor.Replication.loadedOr (.ok (oneConsole cmd) >>=
      ConsoleConfigStore.loadConsoleConfig .plain) Monitor.Replication.labConsoles =
        oneConsole cmd := rfl
  have hcopy : UserMapStore.getMap Monitor.Replication.graduates =
      .ok Monitor.Replication.graduates := rfl
  have husers : Monitor.Replication.loadedOr (Except.map UserMapStore.loadUserMap
      (.ok Monitor.Replication.graduates)) Monitor.Replication.students =
        Monitor.Replication.graduates := rfl
  simp [sigusr2Handled, pushes, perform, Monitor.Replication.turn,
    Monitor.Replication.Turn.handlers, Monitor.Replication.unbounded,
    Monitor.Replication.labStores, List.replicate, hload, hcopy, husers, getRaw_oneConsole]

/-- The command alone decides how long the configuration's text is. -/
theorem length_configUpdate (cmd : String) :
    (bytes (jsonText (configUpdate (oneConsole cmd)))).length = cmd.toList.length + 97 := by
  simp [bytes, configUpdate, oneConsole, PyVal.ofFields, jsonText, jsonMembers, jsonKey]

theorem dumps_configUpdate (arrived : List (Key × PyVal)) {cmd : String}
    (h : cmd.toList.all isPrintable = true) :
    (textCodec arrived).dumps (configUpdate (oneConsole cmd)) =
      .ok (bytes (jsonText (configUpdate (oneConsole cmd)))) := by
  apply dumps_textCodec
  simp only [configUpdate, oneConsole, PyVal.ofFields, jsonText, jsonMembers, jsonKey,
    List.map_cons, List.map_nil, List.cons_append, List.all_cons, List.all_append, h]
  decide

def answer (_ : World) (msg : List (Key × PyVal)) : Arrival := { PushLoop.enforce with msg }

/-- What SIGUSR2 puts on the stream. -/
def asking (cmd : String) : Source Nat where
  cells := ([] ++ [configUpdate (oneConsole cmd), enforceReq Monitor.Replication.graduates]).flatMap
    (wire (textCodec enforceGraduates)) ++ []
  ended := false
  splits := []
  released := []

/-- With a short command the worker gets the request of SIGUSR2, with one of 65536
characters it never does. -/
theorem enforcement_missed :
    let codec := textCodec enforceGraduates
    let left := (wire codec (enforceReq Monitor.Replication.graduates) ++ []).length
    Gets (ipcRecv codec) ends (listen PushLoop.ample .plain answer) PushLoop.quiet
        (asking "virsh console lab01") left (.dict enforceGraduates, []) ∧
      ¬ Gets (ipcRecv codec) ends (listen PushLoop.ample .plain answer) PushLoop.quiet
        (asking (String.ofList (List.replicate 65536 'x'))) left (.dict enforceGraduates, []) := by
  intro codec left
  have hrequest : codec.dumps (enforceReq Monitor.Replication.graduates) = .ok _ :=
    dumps_textCodec enforceGraduates (by decide)
  have hasked := fun cmd => enforcement_arrives_iff (listen PushLoop.ample .plain answer)
    PushLoop.quiet (documented_textCodec enforceGraduates) (pushes_sigusr2Handled cmd)
    (fun msg hmsg => absurd hmsg List.not_mem_nil) hrequest (by decide)
    (loads_textCodec enforceGraduates) (show (asking cmd).cells = _ from rfl)
  constructor
  · have hupdate := dumps_configUpdate enforceGraduates
      (show "virsh console lab01".toList.all isPrintable = true by decide)
    refine (hasked "virsh console lab01").mpr ⟨by decide, ?_, by decide⟩
    intro payload hdumps _
    obtain rfl := Except.ok.inj (hupdate.symm.trans hdumps)
    exact .inl (by rw [length_configUpdate]; decide)
  · intro hgets
    have hkeeps := ((hasked (String.ofList (List.replicate 65536 'x'))).mp hgets).2.1
    have hchars : (String.ofList (List.replicate 65536 'x')).toList = List.replicate 65536 'x' :=
      @String.toList_ofList _
    have hprintable : (String.ofList (List.replicate 65536 'x')).toList.all isPrintable = true := by
      rw [hchars, List.all_eq_true]
      intro c hc
      rw [(List.mem_replicate.mp hc).2]
      decide
    have hcases := hkeeps _ (dumps_configUpdate enforceGraduates hprintable)
    rw [length_configUpdate, hchars, List.length_replicate] at hcases
    exact absurd (hcases (by decide)) (by decide)

end Vnctlsd.Worker.PushFrames
