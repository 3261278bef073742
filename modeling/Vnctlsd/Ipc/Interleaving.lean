import Vnctlsd.Ipc.Requests
import Vnctlsd.Library.Words

/-! Two calls of `ipc_send` on one socket at a time.  `sendall` hands a frame to
the system in as many pieces as the system makes it; between two pieces another
thread, or a signal handler, may send on the same socket. -/
namespace Vnctlsd.Ipc.Interleaving
open Vnctlsd.Library.ByteStream Vnctlsd.Library.Words Vnctlsd.Python

/-- What `json.dumps` writes for an object: printable ASCII between braces. -/
structure JsonText (text : List UInt8) : Prop where
  printable : ∀ byte ∈ text, 0x20 ≤ byte.toNat ∧ byte.toNat ≤ 0x7e
  braces : ∃ inner, text = 0x7b :: (inner ++ [0x7d])

/-- The documented behaviour of `json.dumps` with its defaults. -/
def Codec.WritesText (codec : Codec) : Prop :=
  ∀ entries payload, codec.dumps (.dict entries) = .ok payload → JsonText payload

/-- A frame without descriptors, byte by byte. -/
structure IsFrame (frame : List UInt8) : Prop where
  spelled : ∃ (a b c d : UInt8) (payload : List UInt8),
    frame = 0 :: a :: b :: c :: d :: payload ∧ JsonText payload ∧
    payload.length = ((a.toNat * 256 + b.toNat) * 256 + c.toNat) * 256 + d.toNat

/-- The bytes one call puts on the wire. -/
def frameOf (codec : Codec) (entries : List (Key × PyVal)) : Py (List UInt8) :=
  (ipcSend codec (.dict entries) ([] : List Nat)).map (List.map Cell.byte)

theorem isFrame_frameOf {codec : Codec} (hcodec : Codec.WritesText codec)
    {entries : List (Key × PyVal)} {frame : List UInt8} (h : frameOf codec entries = .ok frame) :
    IsFrame frame := by
  obtain ⟨cells, hsend, rfl⟩ := map_eq_ok.mp h
  obtain ⟨payload, header, hdumps, hpack, rfl⟩ := ipcSend_spec hsend
  obtain ⟨hlength, hunpack⟩ := unpackHeader_packHeader hpack
  rw [List.map_append, map_byte_sent, map_byte_plain]
  match header, hlength with
  | [count, a, b, c, d], _ =>
      simp only [unpackHeader, Prod.mk.injEq, List.length_nil] at hunpack
      have hcount : count = 0 := UInt8.toNat_inj.mp hunpack.1
      subst hcount
      exact ⟨a, b, c, d, payload, rfl, hcodec entries payload hdumps, hunpack.2.symm⟩

theorem JsonText.length_le {text : List UInt8} (h : JsonText text) : 2 ≤ text.length := by
  obtain ⟨inner, rfl⟩ := h.braces
  rw [List.length_cons, List.length_append, List.length_singleton]
  omega

theorem IsFrame.length_le {frame : List UInt8} (h : IsFrame frame) : 7 ≤ frame.length := by
  obtain ⟨a, b, c, d, payload, rfl, hjson, -⟩ := h.spelled
  have := hjson.length_le
  simp only [List.length_cons]
  omega

theorem IsFrame.first {frame : List UInt8} (h : IsFrame frame) : frame[0]? = some 0 := by
  obtain ⟨a, b, c, d, payload, rfl, -, -⟩ := h.spelled
  rfl

/-- A zero byte is one of the header. -/
theorem IsFrame.lt_of_zero {frame : List UInt8} (h : IsFrame frame) {i : Nat}
    (hzero : frame[i]? = some 0) : i < 5 := by
  obtain ⟨a, b, c, d, payload, rfl, hjson, -⟩ := h.spelled
  by_contra hle
  obtain ⟨k, rfl⟩ := Nat.exists_eq_add_of_le (Nat.le_of_not_lt hle)
  have hpayload : payload[k]? = some 0 := by
    rw [Nat.add_comm] at hzero
    exact hzero
  exact absurd (hjson.printable 0 (List.mem_of_getElem? hpayload)).1 (by decide)

/-- The header tells how long a frame is, so none begins with another. -/
theorem IsFrame.eq_of_prefix {first second : List UInt8} (hfirst : IsFrame first)
    (hsecond : IsFrame second) (h : first <+: second) : first = second := by
  obtain ⟨a, b, c, d, payload, rfl, -, hlength⟩ := hfirst.spelled
  obtain ⟨a', b', c', d', payload', rfl, -, hlength'⟩ := hsecond.spelled
  obtain ⟨rest, hrest⟩ := h
  simp only [List.cons_append, List.cons.injEq, true_and] at hrest
  obtain ⟨rfl, rfl, rfl, rfl, rfl⟩ := hrest
  have hnil : rest = [] := by
    rw [List.length_append] at hlength'
    exact List.length_eq_zero_iff.mp (by omega)
  rw [hnil, List.append_nil]

/-- Nor does any end with another: the bytes of a length are not those of a text. -/
theorem IsFrame.eq_nil_of_suffix {front first second : List UInt8} (hfirst : IsFrame first)
    (hsecond : IsFrame second) (h : second = front ++ first) : front = [] := by
  have hzero : second[front.length]? = some 0 := by
    rw [h, List.getElem?_append_right (Nat.le_refl _), Nat.sub_self]
    exact hfirst.first
  have hlt := hsecond.lt_of_zero hzero
  obtain ⟨a, b, c, d, payload, rfl, -, hlength⟩ := hfirst.spelled
  obtain ⟨a', b', c', d', payload', rfl, hjson, hlength'⟩ := hsecond.spelled
  have hprintable := hjson.printable
  have ha := a.toNat_lt
  have hb := b.toNat_lt
  have hc := c.toNat_lt
  match front with
  | [] => rfl
  | [x] =>
      simp only [List.cons_append, List.nil_append, List.cons.injEq] at h
      obtain ⟨-, ha', hb', hc', hd', rfl⟩ := h
      rw [ha', hb', hc', hd', List.length_cons, UInt8.toNat_zero] at hlength'
      omega
  | [x, y] =>
      simp only [List.cons_append, List.nil_append, List.cons.injEq] at h
      obtain ⟨-, ha', hb', hc', hd', rfl⟩ := h
      have hpc := hprintable c (by simp)
      have hpd := hprintable d (by simp)
      rw [ha', hb', hc', hd', List.length_cons, List.length_cons, UInt8.toNat_zero] at hlength'
      have hlow : b.toNat = d.toNat + 2 := by omega
      have hmiddle : a.toNat = c.toNat := by omega
      omega
  | [x, y, z] =>
      simp only [List.cons_append, List.nil_append, List.cons.injEq] at h
      obtain ⟨-, ha', hb', hc', hd', rfl⟩ := h
      have hpc := hprintable c (by simp)
      have hpd := hprintable d (by simp)
      rw [ha', hb', hc', hd', List.length_cons, List.length_cons, List.length_cons,
        UInt8.toNat_zero] at hlength'
      have hlow : a.toNat = d.toNat + 3 := by omega
      omega
  | [x, y, z, w] =>
      simp only [List.cons_append, List.nil_append, List.cons.injEq] at h
      obtain ⟨-, ha', hb', hc', hd', rfl⟩ := h
      have hpd := hprintable d (by simp)
      rw [hd', List.length_cons, List.length_cons, List.length_cons, List.length_cons,
        UInt8.toNat_zero] at hlength'
      omega
  | _ :: _ :: _ :: _ :: _ :: rest =>
      simp only [List.length_cons] at hlt
      omega

/-- A frame is no proper power: its second half would begin with a header of its
own. -/
theorem IsFrame.primitive {frame : List UInt8} (h : IsFrame frame) : Primitive frame := by
  intro w n hpower
  have hlength := congrArg List.length hpower
  rw [length_power] at hlength
  have hle := h.length_le
  match n with
  | 0 => omega
  | 1 => rfl
  | n + 2 =>
      have hw : w ≠ [] := by
        rintro rfl
        rw [List.length_nil, Nat.mul_zero] at hlength
        omega
      have hfirst : w[0]? = some 0 := by
        have hzero := h.first
        rwa [hpower, power_succ, List.getElem?_append_left (List.length_pos_iff.mpr hw)] at hzero
      have hlast : frame[(n + 1) * w.length]? = some 0 := by
        rw [hpower, power_add w (n + 1) 1, power_one, ← length_power,
          List.getElem?_append_right (Nat.le_refl _), Nat.sub_self, hfirst]
      have hlt := h.lt_of_zero hlast
      obtain ⟨a, b, c, d, payload, rfl, -, hpayload⟩ := h.spelled
      have hn : n = 0 := by
        by_contra hne
        have hpos : 1 ≤ n := by omega
        have hgrow := Nat.mul_le_mul_right w.length hpos
        have hrow : (n + 1) * w.length = n * w.length + w.length := Nat.succ_mul n _
        have hall : (n + 2) * w.length = n * w.length + w.length + w.length := by
          rw [Nat.succ_mul, Nat.succ_mul]
        omega
      subst hn
      simp only [Nat.zero_add, Nat.one_mul, List.length_cons] at hlength hlt hlast hle
      have hfour : w.length = 4 := by omega
      rw [hfour] at hlast
      have hd : d = 0 := by simpa using hlast
      rw [hd, UInt8.toNat_zero] at hpayload
      omega

/-- A frame that is broken off to let another through is no longer two whole
frames, in either order. -/
theorem broken_frame {first second front back : List UInt8} (hfirst : IsFrame first)
    (hsecond : IsFrame second) (hsplit : second = front ++ back) (hfront : front ≠ [])
    (hback : back ≠ []) :
    front ++ first ++ back ≠ first ++ second ∧ front ++ first ++ back ≠ second ++ first := by
  have hpos := List.length_pos_iff.mpr hback
  constructor
  · intro h
    rw [hsplit, ← List.append_assoc] at h
    have hcommute : first ++ front = front ++ first := (List.append_cancel_right h).symm
    obtain ⟨n, hn⟩ := hfirst.primitive.power_of_commute hcommute
    cases n with
    | zero => exact hfront (by rw [hn, power_zero])
    | succ n =>
        have hprefix : first <+: second := by
          rw [hsplit, hn, power_succ, List.append_assoc]
          exact List.prefix_append _ _
        have hlength := congrArg List.length hsplit
        rw [← hfirst.eq_of_prefix hsecond hprefix, hn, power_succ, List.length_append,
          List.length_append] at hlength
        omega
  · intro h
    rw [hsplit, List.append_assoc, List.append_assoc] at h
    have hcommute : first ++ back = back ++ first := List.append_cancel_left h
    obtain ⟨n, hn⟩ := hfirst.primitive.power_of_commute hcommute
    cases n with
    | zero => exact hback (by rw [hn, power_zero])
    | succ n =>
        cases n with
        | zero =>
            rw [hn, power_one] at hsplit
            exact hfront (hfirst.eq_nil_of_suffix hsecond hsplit)
        | succ n =>
            have hzero : second[front.length + first.length]? = some 0 := by
              rw [hsplit, hn, power_succ, power_succ, ← List.append_assoc, ← List.length_append,
                List.getElem?_append_right (Nat.le_refl _), Nat.sub_self,
                List.getElem?_append_left (by have := hfirst.length_le; omega)]
              exact hfirst.first
            have hlt := hsecond.lt_of_zero hzero
            have := hfirst.length_le
            omega

/-- The pieces in which the system takes one `sendall`. -/
structure Pieces (frame : List UInt8) where
  parts : List (List UInt8)
  whole : parts.flatten = frame
  nonempty : ∀ part ∈ parts, part ≠ []

inductive Overlap where
  | threads
  | handler
  deriving DecidableEq

/-- The orders in which the pieces of two calls can come: any merge for two
threads; a signal handler sends all of its own between two of the others. -/
def Overlap.Orders : Overlap → List (List UInt8) → List (List UInt8) → List (List UInt8) → Prop
  | .threads, left, right, order => Merge left right order
  | .handler, left, right, order =>
      ∃ front back, left = front ++ back ∧ order = front ++ right ++ back

/-- The receiver sees two whole frames, whatever the order. -/
def Apart (overlap : Overlap) {first second : List UInt8} (left : Pieces first)
    (right : Pieces second) : Prop :=
  ∀ order, overlap.Orders left.parts right.parts order →
    order.flatten = first ++ second ∨ order.flatten = second ++ first

/-- The system takes the call at once that another can break into. -/
def TakenAtOnce (overlap : Overlap) {first second : List UInt8} (left : Pieces first)
    (right : Pieces second) : Prop :=
  left.parts = [first] ∧ (overlap = .threads → right.parts = [second])

/-- A call that is taken in more pieces than one can be broken into. -/
theorem atOnce_of_unbroken {first second : List UInt8} (hfirst : IsFrame first)
    (hsecond : IsFrame second) (pieces : Pieces second)
    (h : ∀ front back, pieces.parts = front ++ back →
      front.flatten ++ first ++ back.flatten = first ++ second ∨
        front.flatten ++ first ++ back.flatten = second ++ first) :
    pieces.parts = [second] := by
  obtain ⟨parts, hwhole, hnonempty⟩ := pieces
  cases parts with
  | nil =>
      have := hsecond.length_le
      rw [← hwhole] at this
      exact absurd this (by decide)
  | cons part rest =>
      rcases eq_or_ne rest [] with rfl | hrest
      · exact congrArg (fun part => [part]) ((List.append_nil part).symm.trans hwhole)
      · have hpart : part ≠ [] := hnonempty part (List.mem_cons_self ..)
        have hback : rest.flatten ≠ [] := by
          obtain ⟨next, more, rfl⟩ := List.exists_cons_of_ne_nil hrest
          have hnext : next ≠ [] := hnonempty next (by simp)
          rw [List.flatten_cons]
          exact fun hnil => hnext (List.append_eq_nil_iff.mp hnil).1
        obtain ⟨hleft, hright⟩ := broken_frame hfirst hsecond
          (by rw [← hwhole, List.flatten_cons]) hpart hback
        rcases h [part] rest rfl with heq | heq
        · exact absurd (by rwa [List.flatten_singleton] at heq) hleft
        · exact absurd (by rwa [List.flatten_singleton] at heq) hright

/-- Two calls of `ipc_send` stay apart in every order exactly when the system takes
each frame that can be broken into at once. -/
theorem apart_iff {codec : Codec} (hcodec : Codec.WritesText codec)
    {firstMsg secondMsg : List (Key × PyVal)} {first second : List UInt8}
    (hfirst : frameOf codec firstMsg = .ok first) (hsecond : frameOf codec secondMsg = .ok second)
    (overlap : Overlap) (left : Pieces first) (right : Pieces second) :
    Apart overlap left right ↔ TakenAtOnce overlap left right := by
  have hfirst := isFrame_frameOf hcodec hfirst
  have hsecond := isFrame_frameOf hcodec hsecond
  have hflatten : ∀ front back : List (List UInt8), (front ++ right.parts ++ back).flatten =
      front.flatten ++ second ++ back.flatten := by
    intro front back
    rw [List.flatten_append, List.flatten_append, right.whole]
  constructor
  · intro h
    constructor
    · apply atOnce_of_unbroken hsecond hfirst left
      intro front back hparts
      have horder : overlap.Orders left.parts right.parts (front ++ right.parts ++ back) := by
        cases overlap with
        | threads =>
            rw [hparts]
            exact merge_inside front back right.parts
        | handler => exact ⟨front, back, hparts, rfl⟩
      have happart := h _ horder
      rw [hflatten] at happart
      exact happart.symm
    · rintro rfl
      apply atOnce_of_unbroken hfirst hsecond right
      intro front back hparts
      have horder :
          Overlap.threads.Orders left.parts right.parts (front ++ left.parts ++ back) := by
        show Merge left.parts right.parts _
        rw [hparts]
        exact (merge_inside front back left.parts).swap
      have happart := h _ horder
      rwa [List.flatten_append, List.flatten_append, left.whole] at happart
  · rintro ⟨hleft, hright⟩ order horder
    cases overlap with
    | threads =>
        have hmerge : Merge left.parts right.parts order := horder
        rw [hleft, hright rfl] at hmerge
        rcases merge_singletons hmerge with rfl | rfl <;> simp
    | handler =>
        obtain ⟨front, back, hparts, rfl⟩ := horder
        rw [hleft] at hparts
        rw [hflatten]
        cases front with
        | nil =>
            rw [List.nil_append] at hparts
            rw [← hparts]
            simp
        | cons part front =>
            obtain ⟨rfl, hnil⟩ := List.cons.inj hparts
            obtain ⟨rfl, rfl⟩ := List.append_eq_nil_iff.mp hnil.symm
            simp

theorem readyCodec_writesText : Codec.WritesText readyCodec := by
  intro entries payload h
  have hpayload : payload = readyText := by
    simp only [readyCodec] at h
    split at h
    · exact (Except.ok.inj h).symm
    · cases h
  subst hpayload
  exact ⟨by decide +kernel, readyText.tail.dropLast, by decide +kernel⟩

def readyFields : List (Key × PyVal) := [(.str "type", .str "READY")]

def readyFrame : List UInt8 := [0, 0, 0, 0, 17] ++ readyText

theorem frameOf_ready : frameOf readyCodec readyFields = .ok readyFrame := rfl

theorem apart_iff_ready :
    Apart .threads (⟨[readyFrame], by decide, by decide⟩ : Pieces readyFrame)
      (⟨[readyFrame], by decide, by decide⟩ : Pieces readyFrame) :=
  (apart_iff readyCodec_writesText frameOf_ready frameOf_ready .threads _ _).mpr
    ⟨rfl, fun _ => rfl⟩

def sessionListReq : List (Key × PyVal) := [(.str "type", .str "SESSION_LIST_REQ")]

def sessionListFrame : List UInt8 := [0, 0, 0, 0, 28] ++ flatText sessionListReq

/-- Of one request the header goes first; the other, from a second thread or a
second signal, comes between it and its payload. -/
theorem broken_sessionListReq :
    frameOf (flatCodec []) sessionListReq = .ok sessionListFrame ∧
      ∃ left right : Pieces sessionListFrame, ∀ overlap, ¬ Apart overlap left right := by
  refine ⟨by decide, ⟨[[0, 0, 0, 0, 28], flatText sessionListReq], rfl, by decide⟩,
    ⟨[sessionListFrame], List.append_nil _, by decide⟩, fun overlap h => ?_⟩
  have horder : overlap.Orders [[0, 0, 0, 0, 28], flatText sessionListReq] [sessionListFrame]
      [[0, 0, 0, 0, 28], sessionListFrame, flatText sessionListReq] := by
    cases overlap with
    | threads => exact .left (.right (.left .nil))
    | handler => exact ⟨[[0, 0, 0, 0, 28]], [flatText sessionListReq], rfl, rfl⟩
  rcases h _ horder with heq | heq <;> exact absurd heq (by decide)

end Vnctlsd.Ipc.Interleaving
