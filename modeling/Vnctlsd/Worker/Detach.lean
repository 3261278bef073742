import Mathlib.Algebra.BigOperators.Group.List.Basic
import Mathlib.Algebra.GroupWithZero.Nat
import Vnctlsd.Library.Escapes
import Vnctlsd.Worker.ConsoleSession

/-! What a session passes on to its console and when it goes back to the prompt,
against the reading of the client's whole stream. -/
namespace Vnctlsd.Worker.Detach
open Vnctlsd.Library.Transition Vnctlsd.Library.Escapes Vnctlsd.Python.Text ConsoleSession

def escapes : Marks UInt8 := ⟨tilde, dot, by decide⟩

/-- The decoding of one chunk is its reading, behind a tilde if one is held. -/
theorem decode_eq_read (data : List UInt8) :
    decode false [] data = ⟨(read escapes data).out, (read escapes data).ending.isHeld,
      (read escapes data).ending.isStopped⟩ := by
  induction data using stream_induction escapes with
  | nil => rfl
  | held => rfl
  | stop rest => rfl
  | literal rest ih =>
      rw [read_literal]
      show decode false ([tilde] ++ []) rest = _
      rw [decode_out, ih]
      rfl
  | pair b rest hmark hstop ih =>
      rw [read_pair hmark hstop]
      show decode true [] (b :: rest) = _
      rw [decode_other hstop hmark, ← List.append_nil ([] ++ [tilde, b]), decode_out, ih]
      rfl
  | plain b rest hb ih =>
      rw [read_plain hb, decode_plain hb, ← List.append_nil ([] ++ [b]), decode_out, ih]
      rfl

/-- What the client sends, over a run. -/
def stream (events : List Event) : List UInt8 :=
  events.flatMap fun event => match event with
    | .send bytes => bytes
    | _ => []

/-- The sizes of the chunks that `recv` returns. -/
def sizes (events : List Event) : List Nat :=
  events.filterMap fun event => match event with
    | .recv size => some size
    | _ => none

def attach (readOnly : Bool) : Channel := ⟨⟨false, false⟩, readOnly, [], false, [], true⟩

/-- A run with the connection open and the hub live. -/
abbrev LiveRun : Channel → List Event → Channel → Prop :=
  GuardedRun step fun _ event => event ≠ .leave

/-- The session has received everything it is going to. -/
def Drained (now : Channel) : Prop := now.attached = true → now.queue = []

/-- The session has received the beginning of the stream in the chunks so far, and
what it has passed on is the decoding of that; it is attached unless the last
chunk, and no earlier one, has detached it. -/
structure Follows (readOnly : Bool) (events : List Event) (now : Channel) : Prop where
  same : now.sock = ⟨false, false⟩ ∧ now.readOnly = readOnly
  taken : (sizes events).sum ≤ (stream events).length
  queue : now.queue = (stream events).drop (sizes events).sum
  watching : readOnly = true → now.attached = true
  running : readOnly = false → now.attached = true →
    decode false [] ((stream events).take (sizes events).sum) = ⟨now.written, now.escape, false⟩
  ended : readOnly = false → now.attached = false →
    (∃ escape, decode false [] ((stream events).take (sizes events).sum) =
      ⟨now.written, escape, true⟩) ∧
    ∀ k < (sizes events).length,
      (decode false [] ((stream events).take ((sizes events).take k).sum)).detached = false

theorem follows_attach (readOnly : Bool) : Follows readOnly [] (attach readOnly) where
  same := ⟨rfl, rfl⟩
  taken := Nat.le_refl 0
  queue := rfl
  watching _ := rfl
  running _ _ := rfl
  ended _ h := by cases h

theorem stream_concat (past : List Event) (event : Event) :
    stream (past ++ [event]) = stream past ++ stream [event] := List.flatMap_append

theorem sizes_concat (past : List Event) (event : Event) :
    sizes (past ++ [event]) = sizes past ++ sizes [event] := List.filterMap_append

theorem sum_take_le (chunks : List Nat) (k : Nat) : (chunks.take k).sum ≤ chunks.sum := by
  rw [← List.sum_take_add_sum_drop chunks k]
  exact Nat.le_add_right _ _

theorem Follows.send {readOnly : Bool} {past : List Event} {now : Channel}
    (h : Follows readOnly past now) (bytes : List UInt8) :
    Follows readOnly (past ++ [.send bytes]) { now with queue := now.queue ++ bytes } := by
  have hstream : stream (past ++ [.send bytes]) = stream past ++ bytes := by
    rw [stream_concat, stream, stream, List.flatMap_singleton]
  have hsizes : sizes (past ++ [.send bytes]) = sizes past := by
    rw [sizes_concat]
    exact List.append_nil _
  have htake : ∀ n ≤ (sizes past).sum, (stream past ++ bytes).take n = (stream past).take n :=
    fun n hn => List.take_append_of_le_length (Nat.le_trans hn h.taken)
  refine ⟨h.same, ?_, ?_, h.watching, ?_, ?_⟩
  · rw [hstream, hsizes, List.length_append]
    exact Nat.le_trans h.taken (Nat.le_add_right _ _)
  · rw [hstream, hsizes, List.drop_append_of_le_length h.taken, ← h.queue]
  · intro hmode hattached
    rw [hstream, hsizes, htake _ (Nat.le_refl _)]
    exact h.running hmode hattached
  · intro hmode hdetached
    rw [hstream, hsizes, htake _ (Nat.le_refl _)]
    refine ⟨(h.ended hmode hdetached).1, fun k hk => ?_⟩
    rw [htake _ (sum_take_le _ k)]
    exact (h.ended hmode hdetached).2 k hk

/-- A decoding that has not ended the session has not ended it earlier either. -/
theorem running_before {data : List UInt8} {m n : Nat}
    (h : (decode false [] (data.take n)).detached = false) (hle : m ≤ n) :
    (decode false [] (data.take m)).detached = false := by
  have hsplit : data.take n = data.take m ++ (data.drop m).take (n - m) := by
    rw [← List.take_add, Nat.add_sub_of_le hle]
  rw [hsplit, decode_append] at h
  split at h
  · exact h
  · exact Bool.eq_false_iff.mpr ‹_›

theorem Follows.recv {readOnly : Bool} {past : List Event} {now : Channel} {size : Nat}
    (h : Follows readOnly past now) (hattached : now.attached = true)
    (hsize : size ≤ now.queue.length)  :
    Follows readOnly (past ++ [.recv size])
      (receive { now with queue := now.queue.drop size } (now.queue.take size)) := by
  have hstream : stream (past ++ [.recv size]) = stream past := by
    rw [stream_concat]
    exact List.append_nil _
  have hsizes : sizes (past ++ [.recv size]) = sizes past ++ [size] := sizes_concat past _
  have hsum : (sizes past ++ [size]).sum = (sizes past).sum + size := by simp
  have hqueue : now.queue.drop size = (stream past).drop ((sizes past).sum + size) := by
    rw [h.queue, List.drop_drop]
  have htaken : (sizes past).sum + size ≤ (stream past).length := by
    rw [h.queue, List.length_drop] at hsize
    have := h.taken
    omega
  have hdata : (stream past).take ((sizes past).sum + size) =
      (stream past).take (sizes past).sum ++ now.queue.take size := by
    rw [List.take_add, h.queue]
  cases readOnly with
  | true =>
      rw [receive, if_pos h.same.2]
      refine ⟨h.same, ?_, ?_, fun _ => hattached, fun h => (by cases h),
        fun h => (by cases h)⟩
      · rwa [hstream, hsizes, hsum]
      · rw [hstream, hsizes, hsum]
        exact hqueue
  | false =>
      have hdecode := h.running rfl hattached
      have hescape :
          now.escape = (decode false [] ((stream past).take (sizes past).sum)).escape := by
        rw [hdecode]
      have hnext := decode_resume (by rw [hdecode]) hescape (now.queue.take size)
      rw [hdecode, ← hdata] at hnext
      rw [receive, if_neg (by simp [h.same.2])]
      generalize decode now.escape [] (now.queue.take size) = decoded at hnext ⊢
      obtain ⟨out, escape, detached⟩ := decoded
      refine ⟨h.same, ?_, ?_, by simp, fun _ hstays => ?_, fun _ hleaves => ⟨?_, fun k hk => ?_⟩⟩
      · rwa [hstream, hsizes, hsum]
      · rw [hstream, hsizes, hsum]
        exact hqueue
      · rw [hstream, hsizes, hsum, hnext]
        cases detached with
        | false => rfl
        | true => cases hstays
      · rw [hstream, hsizes, hsum, hnext]
        cases detached with
        | false => cases hleaves
        | true => exact ⟨escape, rfl⟩
      · rw [hsizes, List.length_append, List.length_singleton] at hk
        rw [hstream, hsizes, List.take_append_of_le_length (Nat.le_of_lt_succ hk)]
        exact running_before (by rw [hdecode]) (sum_take_le _ k)

theorem follows_step {readOnly : Bool} {past : List Event} {now next : Channel} {event : Event}
    (h : Follows readOnly past now) (hlive : event ≠ .leave) (hstep : step now event = some next) :
    Follows readOnly (past ++ [event]) next := by
  cases event with
  | send bytes =>
      have hopen : (now.sock.shut || now.sock.closed) = false := by rw [h.same.1]; rfl
      rw [step, hopen, if_neg Bool.false_ne_true] at hstep
      cases hstep
      exact h.send bytes
  | recv size =>
      rw [step] at hstep
      split at hstep
      · rename_i hready
        cases hstep
        exact h.recv hready.1 hready.2.2.2.2
      · cases hstep
  | leave => exact absurd rfl hlive

theorem follows_of_run {readOnly : Bool} {events : List Event} {finish : Channel}
    (hrun : LiveRun (attach readOnly) events finish) : Follows readOnly events finish :=
  hrun.history (fun _ _ _ _ h hlive hstep => follows_step h hlive hstep) (follows_attach readOnly)

/-- The client's stream has `~.` behind whole units. -/
def Detaches (s : List UInt8) : Prop := ∃ rest, Stops escapes s rest

theorem detaches_iff (s : List UInt8) :
    Detaches s ↔ (decode false [] s).detached = true := by
  rw [decode_eq_read]
  unfold Detaches
  simp only [stops_iff]
  cases (read escapes s).ending with
  | whole | held => simp [Ending.isStopped]
  | stopped rest => simp [Ending.isStopped]

theorem take_drained {readOnly : Bool} {events : List Event} {now : Channel}
    (h : Follows readOnly events now) (hqueue : now.queue = []) :
    (stream events).take (sizes events).sum = stream events := by
  have hdrop := h.queue
  rw [hqueue] at hdrop
  exact List.take_of_length_le (List.drop_eq_nil_iff.mp hdrop.symm)

/-- Once the stream is received, what has been passed on is its reading, and the
session has ended at a `~.` between its units and nowhere else. -/
theorem decoded_of_follows {events : List Event} {finish : Channel}
    (h : Follows false events finish) (hdrained : Drained finish) :
    finish.written = (read escapes (stream events)).out ∧
      (finish.attached = false ↔ Detaches (stream events)) := by
  have hread := decode_eq_read (stream events)
  rw [detaches_iff]
  cases hattached : finish.attached with
  | true =>
      have hdecode := h.running rfl hattached
      rw [take_drained h (hdrained hattached)] at hdecode
      rw [hdecode] at hread ⊢
      exact ⟨congrArg Decoded.out hread, by simp⟩
  | false =>
      obtain ⟨⟨escape, hdecode⟩, -⟩ := h.ended rfl hattached
      have hall : decode false [] (stream events) = ⟨finish.written, escape, true⟩ := by
        rw [← List.take_append_drop (sizes events).sum (stream events), decode_append, hdecode,
          if_pos rfl]
      rw [hall] at hread ⊢
      exact ⟨congrArg Decoded.out hread, by simp⟩

/-- However the stream is cut into chunks, the console gets its reading, and the
session ends at a `~.` between its units and nowhere else; so a stream with every
tilde doubled comes through as it was. -/
theorem decodes_exactly {events : List Event} {finish : Channel}
    (hrun : LiveRun (attach false) events finish) (hdrained : Drained finish) :
    finish.written = (read escapes (stream events)).out ∧
      (finish.attached = false ↔ Detaches (stream events)) ∧
      ∀ s, stream events = doubled escapes s → finish.written = s ∧ finish.attached = true := by
  obtain ⟨hwritten, hdetached⟩ := decoded_of_follows (follows_of_run hrun) hdrained
  refine ⟨hwritten, hdetached, fun s hs => ?_⟩
  have hread := read_doubled escapes s
  have hstays : ¬ Detaches (stream events) := by
    rintro ⟨rest, hstops⟩
    rw [stops_iff, hs, hread] at hstops
    cases hstops
  exact ⟨by rw [hwritten, hs, hread], by rwa [← hdetached, Bool.not_eq_false] at hstays⟩

theorem decodes_exactly_split :
    ∃ finish, LiveRun (attach false)
        [.send (ascii "a~~b~"), .recv 2, .recv 1, .send (ascii "x~"), .recv 4] finish ∧
      finish.written = ascii "a~b~x" ∧ finish.attached = true := by
  have hrun : LiveRun (attach false)
      [.send (ascii "a~~b~"), .recv 2, .recv 1, .send (ascii "x~"), .recv 4]
      ⟨⟨false, false⟩, false, [], true, ascii "a~b~x", true⟩ :=
    .cons (by decide) rfl (.cons (by decide) rfl (.cons (by decide) rfl
      (.cons (by decide) rfl (.cons (by decide) rfl (.nil _)))))
  obtain ⟨hwritten, hdetached, -⟩ := decodes_exactly hrun fun _ => rfl
  exact ⟨_, hrun, hwritten, rfl⟩

/-- The two kinds of session on one stream go back to the prompt together, where
the banner says. -/
structure Alike (s : List UInt8) (readOnly readWrite : Channel) : Prop where
  together : readOnly.attached = false ↔ readWrite.attached = false
  atDetach : readWrite.attached = false ↔ Detaches s

/-- They do exactly on the streams that never say `~.`: a read-only session throws
the bytes away and stays. -/
theorem alike_iff {roEvents rwEvents : List Event} {ro rw : Channel}
    (hro : LiveRun (attach true) roEvents ro) (hrw : LiveRun (attach false) rwEvents rw)
    (hsame : stream roEvents = stream rwEvents) (hdrained : Drained rw) :
    Alike (stream roEvents) ro rw ↔ ¬ Detaches (stream roEvents) := by
  have hstays : ro.attached = true := (follows_of_run hro).watching rfl
  obtain ⟨-, hdetached⟩ := decoded_of_follows (follows_of_run hrw) hdrained
  rw [hsame]
  constructor
  · intro halike hdetaches
    have hleft := halike.together.mpr (hdetached.mpr hdetaches)
    rw [hstays] at hleft
    cases hleft
  · intro hnever
    refine ⟨?_, hdetached⟩
    rw [hstays, hdetached]
    exact ⟨fun h => (by cases h), fun h => absurd h hnever⟩

theorem alike_iff_typing :
    ∃ ro rw, LiveRun (attach true) [.send (ascii "ls~"), .recv 3] ro ∧
      LiveRun (attach false) [.send (ascii "ls~"), .recv 1, .recv 2] rw ∧
      Alike (ascii "ls~") ro rw := by
  have hro : LiveRun (attach true) [.send (ascii "ls~"), .recv 3]
      ⟨⟨false, false⟩, true, [], false, [], true⟩ :=
    .cons (by decide) rfl (.cons (by decide) rfl (.nil _))
  have hrw : LiveRun (attach false) [.send (ascii "ls~"), .recv 1, .recv 2]
      ⟨⟨false, false⟩, false, [], true, ascii "ls", true⟩ :=
    .cons (by decide) rfl (.cons (by decide) rfl (.cons (by decide) rfl (.nil _)))
  have hnever : ¬ Detaches (ascii "ls~") := by
    rw [detaches_iff]
    decide
  exact ⟨_, _, hro, hrw, (alike_iff hro hrw rfl fun _ => rfl).mpr hnever⟩

/-- On `~.` alone the read-write session goes back to the prompt and the read-only
one does not. -/
theorem readOnly_never_detaches :
    ∃ ro rw, LiveRun (attach true) [.send (ascii "~."), .recv 2] ro ∧
      LiveRun (attach false) [.send (ascii "~."), .recv 2] rw ∧ Drained ro ∧ Drained rw ∧
      ¬ Alike (ascii "~.") ro rw := by
  refine ⟨⟨⟨false, false⟩, true, [], false, [], true⟩,
    ⟨⟨false, false⟩, false, [], false, [], false⟩,
    .cons (by decide) rfl (.cons (by decide) rfl (.nil _)),
    .cons (by decide) rfl (.cons (by decide) rfl (.nil _)), fun _ => rfl, fun _ => rfl, ?_⟩
  intro halike
  exact absurd (halike.together.mpr rfl) (by decide)

end Vnctlsd.Worker.Detach
