import Mathlib.Data.List.DropRight
import Mathlib.Data.Nat.Bitwise
import Vnctlsd.Library.Records
import Vnctlsd.Python.Utf8
import Vnctlsd.Watcher.Reload

/-! The bytes that the watcher reads from its inotify descriptor, and the loop over the
events in them. -/
namespace Vnctlsd.Watcher.Inotify
open Vnctlsd.Library.Records Vnctlsd.Python Reload

/-- `_INOTIFY_EVENT.size`: four words, low byte first. -/
def eventSize : Nat := 16

structure Header where
  wd : Int
  mask : Nat
  cookie : Nat
  nameLen : Nat
  deriving DecidableEq

def word (n : Nat) : List UInt8 :=
  [.ofNat n, .ofNat (n / 0x100), .ofNat (n / 0x10000), .ofNat (n / 0x1000000)]

def readWord : List UInt8 → Nat
  | [a, b, c, d] => a.toNat + 0x100 * (b.toNat + 0x100 * (c.toNat + 0x100 * d.toNat))
  | _ => 0

/-- A word under the format `i`. -/
def signed (n : Nat) : Int := if n < 2 ^ 31 then n else n - 2 ^ 32

/-- `raw[start:stop]`. -/
def slice (raw : List UInt8) (start stop : Nat) : List UInt8 := (raw.take stop).drop start

/-- `_INOTIFY_EVENT.unpack_from(raw, offset)`. -/
def unpackFrom (raw : List UInt8) (offset : Nat) : Py Header :=
  if raw.length < offset + eventSize then
    raise .structError (s!"unpack_from requires a buffer of at least {offset + eventSize} " ++
      s!"bytes for unpacking {eventSize} bytes at offset {offset} " ++
      s!"(actual buffer size is {raw.length})")
  else
    let field := fun index => readWord (slice raw (offset + 4 * index) (offset + 4 * index + 4))
    .ok ⟨signed (field 0), field 1, field 2, field 3⟩

/-- `name.rstrip(b'\x00')`. -/
def rstripNul (name : List UInt8) : List UInt8 := name.rdropWhile fun b => b == 0

inductive Handler where
  | appeared
  | disappeared
  deriving DecidableEq

/-- A call of a handler.  The name is joined to a watch directory that the other thread
may set at any time. -/
structure Dispatch where
  handler : Handler
  fname : String
  deriving DecidableEq

def Dispatch.path (watchDir : PyVal) (call : Dispatch) : Py String :=
  joinPath watchDir call.fname

def handlerOf (mask : Nat) : Option Handler :=
  if mask &&& (inCreate ||| inMovedTo) != 0 then some .appeared
  else if mask &&& (inDelete ||| inMovedFrom) != 0 then some .disappeared
  else none

/-- The loop's body from where it has the name. -/
def dispatch (mask : Nat) (name : List UInt8) : Option Dispatch :=
  if name = [] then none
  else
    let fname := Utf8.decode name
    if !isSocketName fname then none
    else (handlerOf mask).map fun handler => ⟨handler, fname⟩

/-- What one round of the loop does, and the ranges of the buffer it reads. -/
structure Round where
  call : Option Dispatch
  reads : List (Nat × Nat)
  deriving DecidableEq

/-- A slice is cut at the end of the buffer. -/
def sliceRange (raw : List UInt8) (start stop : Nat) : Nat × Nat :=
  (min start raw.length, min stop raw.length)

/-- The loop's body from where it has the header: the next offset, and the rest. -/
def roundOf (raw : List UInt8) (offset : Nat) (header : Header) : Nat × Round :=
  let start := offset + eventSize
  if 0 < header.nameLen then
    let stop := start + header.nameLen
    let name := rstripNul (slice raw start stop)
    (stop, ⟨dispatch header.mask name, [(offset, start), sliceRange raw start stop]⟩)
  else (start, ⟨dispatch header.mask [], [(offset, start)]⟩)

def loopBody (raw : List UInt8) : Step Round PyExc := fun offset =>
  if raw.length < offset + eventSize then pure none
  else do
    let header ← unpackFrom raw offset
    pure (some (roundOf raw offset header))

/-- `while offset < len(raw)`, from 0.  The calls that are due are recorded, and taken
to return: what follows one that raises is the business of `Watcher.Reload`. -/
def eventLoop (raw : List UInt8) (fuel : Nat) : Option (Walked Round PyExc) :=
  walk raw.length (loopBody raw) fuel 0

def calls (rounds : List Round) : List Dispatch := rounds.filterMap Round.call

/-- An event as the kernel writes it, with the length of its name and padding. -/
structure Event where
  wd : UInt32
  mask : UInt32
  cookie : UInt32
  name : List Char
  pad : Nat
  noNul : '\x00' ∉ name
  fits : (Utf8.encode name).length + pad < 2 ^ 32

def Event.padded (event : Event) : List UInt8 :=
  Utf8.encode event.name ++ List.replicate event.pad 0

def Event.header (event : Event) : List UInt8 :=
  word event.wd.toNat ++ word event.mask.toNat ++ word event.cookie.toNat ++
    word event.padded.length

def Event.bytes (event : Event) : List UInt8 := event.header ++ event.padded

def Event.parsed (event : Event) : Header :=
  ⟨signed event.wd.toNat, event.mask.toNat, event.cookie.toNat, event.padded.length⟩

/-- `IN_CREATE` is bit 8 of a mask, `IN_MOVED_TO` bit 7. -/
def Event.came (event : Event) : Prop :=
  event.mask.toNat.testBit 8 = true ∨ event.mask.toNat.testBit 7 = true

instance (event : Event) : Decidable event.came := inferInstanceAs (Decidable (_ ∨ _))

/-- `IN_DELETE` is bit 9, `IN_MOVED_FROM` bit 6. -/
def Event.went (event : Event) : Prop :=
  event.mask.toNat.testBit 9 = true ∨ event.mask.toNat.testBit 6 = true

instance (event : Event) : Decidable event.went := inferInstanceAs (Decidable (_ ∨ _))

def Event.ofSocket (event : Event) : Prop := event.name ≠ [] ∧ ".sock".toList <:+ event.name

instance (event : Event) : Decidable event.ofSocket := inferInstanceAs (Decidable (_ ∧ _))

/-- What the event is to the watcher: a named socket that came or went. -/
def Event.call (event : Event) : Option Dispatch :=
  if ¬ event.ofSocket then none
  else if event.came then some ⟨.appeared, String.ofList event.name⟩
  else if event.went then some ⟨.disappeared, String.ofList event.name⟩
  else none

theorem readWord_word {n : Nat} (h : n < 2 ^ 32) : readWord (word n) = n := by
  simp only [word, readWord, UInt8.toNat_ofNat']
  omega

theorem slice_split {raw front middle back : List UInt8} {start stop : Nat}
    (hraw : raw = front ++ middle ++ back) (hstart : start = front.length)
    (hstop : stop = start + middle.length) : slice raw start stop = middle := by
  subst hstart
  rw [slice, hraw, hstop, ← List.length_append, List.take_left, List.drop_left]

theorem rdropWhile_replicate (bytes : List UInt8) (count : Nat) (h : 0 ∉ bytes) :
    rstripNul (bytes ++ List.replicate count 0) = bytes := by
  induction count with
  | zero =>
      rw [List.replicate_zero, List.append_nil, rstripNul, List.rdropWhile_eq_self_iff]
      intro hne hzero
      rw [beq_iff_eq] at hzero
      exact h (hzero ▸ List.getLast_mem hne)
  | succ count ih =>
      rw [List.replicate_succ', ← List.append_assoc, rstripNul,
        List.rdropWhile_concat_pos _ _ _ rfl]
      exact ih

theorem rstripNul_padded (event : Event) :
    rstripNul event.padded = Utf8.encode event.name :=
  rdropWhile_replicate _ _ (Utf8.zero_notMem_encode event.noNul)

theorem length_padded (event : Event) : event.padded.length < 2 ^ 32 := by
  rw [Event.padded, List.length_append, List.length_replicate]
  exact event.fits

theorem isSocketName_ofList (name : List Char) :
    isSocketName (String.ofList name) = true ↔ ".sock".toList <:+ name := by
  rw [isSocketName, @String.toList_ofList name, List.isSuffixOf_iff_suffix]

theorem and_bits_ne_zero (mask i j : Nat) :
    mask &&& (2 ^ i ||| 2 ^ j) ≠ 0 ↔ mask.testBit i = true ∨ mask.testBit j = true := by
  have hbit (k : Nat) : mask &&& 2 ^ k = 0 ↔ mask.testBit k = false := by
    rw [Nat.and_two_pow]
    cases mask.testBit k with
    | false => simp
    | true => simp
  rw [Nat.and_or_distrib_left, Ne, Nat.or_eq_zero_iff, hbit, hbit]
  cases mask.testBit i <;> cases mask.testBit j <;> decide

theorem Event.came_iff (event : Event) :
    (event.mask.toNat &&& (inCreate ||| inMovedTo) != 0) = true ↔ event.came := by
  rw [bne_iff_ne]
  exact and_bits_ne_zero event.mask.toNat 8 7

theorem Event.went_iff (event : Event) :
    (event.mask.toNat &&& (inDelete ||| inMovedFrom) != 0) = true ↔ event.went := by
  rw [bne_iff_ne]
  exact and_bits_ne_zero event.mask.toNat 9 6

theorem handlerOf_event (event : Event) :
    handlerOf event.mask.toNat =
      if event.came then some .appeared else if event.went then some .disappeared else none := by
  rw [handlerOf]
  simp only [event.came_iff, event.went_iff]

theorem dispatch_encoded (event : Event) :
    dispatch event.mask.toNat (Utf8.encode event.name) = event.call := by
  rw [dispatch, Event.call, Utf8.decode_encode, handlerOf_event]
  dsimp only
  by_cases hname : event.name = []
  · rw [if_pos (Utf8.encode_eq_nil_iff.mpr hname), if_pos fun h => h.1 hname]
  · rw [if_neg (mt Utf8.encode_eq_nil_iff.mp hname)]
    by_cases hsocket : ".sock".toList <:+ event.name
    · rw [(isSocketName_ofList event.name).mpr hsocket, Bool.not_true,
        if_neg Bool.false_ne_true, if_neg (not_not_intro ⟨hname, hsocket⟩)]
      split
      case isTrue => rfl
      case isFalse =>
        split
        case isTrue => rfl
        case isFalse => rfl
    · rw [Bool.of_not_eq_true (mt (isSocketName_ofList event.name).mp hsocket), Bool.not_false,
        if_pos rfl, if_pos fun h => hsocket h.2]

theorem length_header (event : Event) : event.header.length = eventSize := rfl

theorem unpackFrom_header (front back : List UInt8) (event : Event) :
    unpackFrom (front ++ event.bytes ++ back) front.length =
      .ok event.parsed := by
  have hroom : ¬ (front ++ event.bytes ++ back).length < front.length + eventSize := by
    rw [Event.bytes]
    simp only [List.length_append, length_header]
    omega
  have hfield (index n : Nat) (before after : List UInt8) (hn : n < 2 ^ 32)
      (hheader : event.header = before ++ word n ++ after) (hindex : before.length = 4 * index) :
      readWord (slice (front ++ event.bytes ++ back) (front.length + 4 * index)
        (front.length + 4 * index + 4)) = n := by
    have hraw : front ++ event.bytes ++ back =
        (front ++ before) ++ word n ++ (after ++ event.padded ++ back) := by
      rw [Event.bytes, hheader]
      simp only [List.append_assoc]
    have hslice : slice (front ++ event.bytes ++ back) (front.length + 4 * index)
        (front.length + 4 * index + 4) = word n :=
      slice_split hraw (by rw [List.length_append, hindex]) rfl
    rw [hslice, readWord_word hn]
  have hwd := hfield 0 event.wd.toNat [] (word event.mask.toNat ++ word event.cookie.toNat ++
    word event.padded.length) event.wd.toNat_lt rfl rfl
  have hmask := hfield 1 event.mask.toNat (word event.wd.toNat) (word event.cookie.toNat ++
    word event.padded.length) event.mask.toNat_lt rfl rfl
  have hcookie := hfield 2 event.cookie.toNat (word event.wd.toNat ++ word event.mask.toNat)
    (word event.padded.length) event.cookie.toNat_lt rfl rfl
  have hlen := hfield 3 event.padded.length (word event.wd.toNat ++ word event.mask.toNat ++
    word event.cookie.toNat) [] (length_padded event) (List.append_nil _).symm rfl
  rw [unpackFrom, if_neg hroom]
  dsimp only
  rw [hwd, hmask, hcookie, hlen]
  rfl

theorem loopBody_ok {raw : List UInt8} {offset : Nat} {header : Header}
    (hroom : ¬ raw.length < offset + eventSize) (hheader : unpackFrom raw offset = .ok header) :
    loopBody raw offset = .ok (some (roundOf raw offset header)) := by
  rw [loopBody, if_neg hroom, hheader]
  rfl

/-- The round that reads an event ends behind it, and calls what the event calls for. -/
theorem roundOf_event (front back : List UInt8) (event : Event) :
    (roundOf (front ++ event.bytes ++ back) front.length event.parsed).1 =
        (front ++ event.bytes).length ∧
      (roundOf (front ++ event.bytes ++ back) front.length event.parsed).2.call = event.call := by
  have hnext : (front ++ event.bytes).length =
      front.length + eventSize + event.padded.length := by
    rw [Event.bytes, ← List.append_assoc, List.length_append, List.length_append, length_header]
  have hraw : front ++ event.bytes ++ back = (front ++ event.header) ++ event.padded ++ back := by
    simp only [Event.bytes, List.append_assoc]
  have hname : slice (front ++ event.bytes ++ back) (front.length + eventSize)
      (front.length + eventSize + event.padded.length) = event.padded :=
    slice_split hraw (by rw [List.length_append, length_header]) rfl
  rw [roundOf, hnext]
  by_cases hnamed : 0 < event.parsed.nameLen
  · rw [if_pos hnamed]
    dsimp only [Event.parsed]
    rw [hname, rstripNul_padded, dispatch_encoded]
    exact ⟨rfl, rfl⟩
  · have hpadded : event.padded = [] :=
      List.eq_nil_of_length_eq_zero (Nat.eq_zero_of_not_pos hnamed)
    have hencoded : Utf8.encode event.name = [] := (List.append_eq_nil_iff.mp hpadded).1
    rw [if_neg hnamed]
    dsimp only [Event.parsed]
    rw [← hencoded, dispatch_encoded, hpadded]
    exact ⟨rfl, rfl⟩

theorem loopBody_reads : Reads Event.bytes Round.call Event.call loopBody where
  nonempty event := List.append_ne_nil_of_left_ne_nil (List.cons_ne_nil _ _) _
  step front event back := by
    have hroom : ¬ (front ++ event.bytes ++ back).length < front.length + eventSize := by
      rw [Event.bytes]
      simp only [List.length_append, length_header]
      omega
    obtain ⟨hnext, hcall⟩ := roundOf_event front back event
    refine ⟨_, ?_, hcall⟩
    rw [loopBody_ok hroom (unpackFrom_header front back event), ← hnext]

/-- What is read lies in the buffer. -/
def Round.Inside (raw : List UInt8) (round : Round) : Prop :=
  ∀ range ∈ round.reads, range.1 ≤ range.2 ∧ range.2 ≤ raw.length

theorem sliceRange_inside (raw : List UInt8) {start stop : Nat} (h : start ≤ stop) :
    (sliceRange raw start stop).1 ≤ (sliceRange raw start stop).2 ∧
      (sliceRange raw start stop).2 ≤ raw.length := by
  simp only [sliceRange]
  omega

theorem roundOf_inside {raw : List UInt8} {offset : Nat} (header : Header)
    (h : offset + eventSize ≤ raw.length) :
    offset + eventSize ≤ (roundOf raw offset header).1 ∧
      (roundOf raw offset header).2.Inside raw := by
  have hheader : offset ≤ offset + eventSize ∧ offset + eventSize ≤ raw.length :=
    ⟨Nat.le_add_right _ _, h⟩
  rw [roundOf]
  dsimp only
  split
  case isTrue =>
    refine ⟨Nat.le_add_right _ _, List.forall_mem_cons.mpr ⟨hheader, ?_⟩⟩
    exact List.forall_mem_singleton.mpr (sliceRange_inside raw (Nat.le_add_right _ _))
  case isFalse =>
    exact ⟨Nat.le_refl _, List.forall_mem_singleton.mpr hheader⟩

theorem unpackFrom_ok {raw : List UInt8} {offset : Nat} (h : ¬ raw.length < offset + eventSize) :
    ∃ header, unpackFrom raw offset = .ok header := by
  rw [unpackFrom, if_neg h]
  exact ⟨_, rfl⟩

theorem loopBody_advances (raw : List UInt8) :
    Advances raw.length eventSize (loopBody raw) (Round.Inside raw) where
  safe offset _ := by
    by_cases hroom : raw.length < offset + eventSize
    · exact ⟨none, by rw [loopBody, if_pos hroom]; rfl⟩
    · obtain ⟨header, hheader⟩ := unpackFrom_ok hroom
      exact ⟨_, loopBody_ok hroom hheader⟩
  forward offset _ next round hround := by
    by_cases hroom : raw.length < offset + eventSize
    · rw [loopBody, if_pos hroom] at hround
      cases hround
    · obtain ⟨header, hheader⟩ := unpackFrom_ok hroom
      rw [loopBody_ok hroom hheader] at hround
      have hmoved : roundOf raw offset header = (next, round) :=
        Option.some.inj (Except.ok.inj hround)
      have hinside := roundOf_inside header (Nat.le_of_not_lt hroom)
      rwa [hmoved] at hinside

theorem length_events_le (events : List Event) :
    events.length * eventSize ≤ (events.flatMap Event.bytes).length := by
  induction events with
  | nil => exact Nat.le_refl 0
  | cons event events ih =>
      rw [List.flatMap_cons, List.length_append, List.length_cons, Nat.succ_mul, Event.bytes,
        List.length_append, length_header]
      omega

theorem calls_eq {rounds : List Round} {events : List Event}
    (h : rounds.map Round.call = events.map Event.call) :
    calls rounds = events.filterMap Event.call := by
  have hfilter := congrArg (List.filterMap id) h
  rwa [List.filterMap_map, List.filterMap_map] at hfilter

/-- Over any bytes the loop ends without an error and reads inside them; over events it
makes the calls that they call for, in order. -/
theorem eventLoop_complete_and_total :
    (∀ events : List Event, ∀ fuel, (events.flatMap Event.bytes).length / eventSize + 1 < fuel →
      ∃ rounds, eventLoop (events.flatMap Event.bytes) fuel = some ⟨rounds, .ok ()⟩ ∧
        calls rounds = events.filterMap Event.call) ∧
    (∀ raw : List UInt8, ∀ fuel, raw.length / eventSize + 1 < fuel →
      ∃ rounds, eventLoop raw fuel = some ⟨rounds, .ok ()⟩ ∧
        ∀ round ∈ rounds, round.Inside raw) := by
  constructor
  · intro events fuel hfuel
    have hcount : events.length < fuel := by
      have := length_events_le events
      have : events.length ≤ (events.flatMap Event.bytes).length / eventSize :=
        (Nat.le_div_iff_mul_le (by decide)).mpr this
      omega
    obtain ⟨rounds, hloop, hcalls⟩ := loopBody_reads.walk events hcount
    exact ⟨rounds, hloop, calls_eq hcalls⟩
  · intro raw fuel hfuel
    obtain ⟨fuel, rfl⟩ := Nat.exists_eq_add_one_of_ne_zero (Nat.ne_of_gt (Nat.zero_lt_of_lt hfuel))
    have hwidth : raw.length ≤ 0 + fuel * eventSize := by
      have := Nat.div_add_mod raw.length eventSize
      have : raw.length % eventSize < eventSize := Nat.mod_lt _ (by decide)
      have : eventSize * (raw.length / eventSize + 1) ≤ eventSize * fuel :=
        Nat.mul_le_mul_left _ (by omega)
      rw [Nat.mul_add] at this
      rw [Nat.mul_comm fuel]
      omega
    exact walk_ends (loopBody_advances raw) hwidth

/-- A socket that came, a file of another kind, and a socket that went, whose name has no
padding. -/
def sockEvents : List Event :=
  [⟨1, 0x100, 0, "vm é.sock".toList, 6, by decide, by decide⟩,
    ⟨1, 0x100, 0, "notes.txt".toList, 7, by decide, by decide⟩,
    ⟨1, 0x40, 7, "b.sock".toList, 0, by decide, by decide⟩]

theorem eventLoop_complete_and_total_socks :
    ∃ rounds, eventLoop (sockEvents.flatMap Event.bytes) 8 = some ⟨rounds, .ok ()⟩ ∧
      calls rounds = sockEvents.filterMap Event.call :=
  eventLoop_complete_and_total.1 sockEvents 8 (by decide)

theorem Event.call_cases {event : Event} {call : Dispatch} (h : event.call = some call) :
    event.ofSocket ∧
      (event.came ∧ call = ⟨.appeared, String.ofList event.name⟩ ∨
        ¬ event.came ∧ event.went ∧ call = ⟨.disappeared, String.ofList event.name⟩) := by
  rw [Event.call] at h
  split at h
  case isTrue => cases h
  case isFalse hsocket =>
    refine ⟨not_not.mp hsocket, ?_⟩
    split at h
    case isTrue hcame => exact .inl ⟨hcame, (Option.some.inj h).symm⟩
    case isFalse hcame =>
      split at h
      case isTrue hwent => exact .inr ⟨hcame, hwent, (Option.some.inj h).symm⟩
      case isFalse => cases h

variable {rt : Runtime} {host : Host} {world : World} {passwd : ConsoleConfigStore.Passwd}
  {event : Event} {call : Dispatch}

/-- A round of the two-threaded loop on an event about a socket. -/
theorem look_ofSocket (hsocket : event.ofSocket)
    (hdecode : host.decode (String.ofList event.name) = String.ofList event.name) :
    look rt host world passwd ⟨event.mask.toNat, String.ofList event.name⟩ =
      (do
        let path ← joinPath world.watchDir (String.ofList event.name)
        if event.came then appear rt host world passwd path .idle
        else if event.went then pure (.retracting path)
        else pure .idle) := by
  have hnamed : ¬ (String.ofList event.name = "" ∨
      (!isSocketName (host.decode (String.ofList event.name))) = true) := by
    rw [hdecode, (isSocketName_ofList event.name).mpr hsocket.2]
    rintro (hempty | hother)
    · exact hsocket.1 (String.ofList_eq_empty_iff.mp hempty)
    · cases hother
  have happears : Notice.appears ⟨event.mask.toNat, String.ofList event.name⟩ = true ↔ event.came :=
    event.came_iff
  have hdisappears :
      Notice.disappears ⟨event.mask.toNat, String.ofList event.name⟩ = true ↔ event.went :=
    event.went_iff
  rw [look, pathOf, if_neg hnamed, hdecode]
  cases joinPath world.watchDir (String.ofList event.name) with
  | error => rfl
  | ok path =>
      simp only [Except.map, happears, hdisappears]
      rfl

/-- The calls are what a round of the two-threaded loop does with the event. -/
theorem look_of_call (hcall : event.call = some call)
    (hdecode : host.decode (String.ofList event.name) = String.ofList event.name) :
    look rt host world passwd ⟨event.mask.toNat, String.ofList event.name⟩ =
      (do
        let path ← call.path world.watchDir
        match call.handler with
        | .appeared => appear rt host world passwd path .idle
        | .disappeared => pure (.retracting path)) := by
  obtain ⟨hsocket, hcases⟩ := Event.call_cases hcall
  rw [look_ofSocket hsocket hdecode]
  rcases hcases with ⟨hcame, rfl⟩ | ⟨hcame, hwent, rfl⟩
  · simp only [if_pos hcame]
    rfl
  · simp only [if_neg hcame, if_pos hwent]
    rfl

end Vnctlsd.Watcher.Inotify
