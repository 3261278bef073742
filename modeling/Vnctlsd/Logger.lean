import Mathlib.Algebra.GroupWithZero.Nat
import Vnctlsd.Library.Dict
import Vnctlsd.Library.Transfer
import Vnctlsd.Python.Json

/-! Log records as lines of JSON.  A record that is too long loses its traceback first,
and then all but the beginning of its message. -/
namespace Vnctlsd.Logger
open Vnctlsd.Library Json Vnctlsd.Python.Json

def maxRecordBytes : Nat := 65536

abbrev msgKey : Text := ofString "msg"

abbrev excKey : Text := ofString "exc"

abbrev truncatedKey : Text := ofString "truncated"

abbrev Fields := Dict Text Value

/-- What `emit` makes of a log record: a message, and a traceback line by line if there is
one. -/
structure Entry where
  fields : Fields
  msg : Text
  hasMsg : fields.get? msgKey = some (.str msg)
  exc : Option (List Text)
  hasExc : fields.get? excKey = exc.map fun lines => .list (lines.map .str)
  whole : fields.get? truncatedKey = none

/-- `.encode('utf-8')`; nothing in the text has to be replaced. -/
def encodeUtf8 (text : List Char) : List UInt8 := text.flatMap String.utf8EncodeChar

def encodeLine (fields : Fields) : List UInt8 :=
  encodeUtf8 (dumps (.dict fields.entries) ++ ['\n'])

def ellipsis : Text := ofString "…"

/-- The last part of `_encode_entry`, over the limits that are left. -/
def shorten (msg : Text) : List Nat → Fields → List UInt8
  | [], trimmed => encodeLine (trimmed.set msgKey (.str ellipsis))
  | limit :: limits, trimmed =>
      if limit < msg.length then
        let trimmed := trimmed.set msgKey (.str (msg.take limit ++ ellipsis))
        let data := encodeLine trimmed
        if data.length ≤ maxRecordBytes then data else shorten msg limits trimmed
      else shorten msg limits trimmed

/-- `trimmed.get('msg', '')`. -/
def messageOf (fields : Fields) : Text :=
  match fields.get? msgKey with
  | some (.str msg) => msg
  | _ => []

def limits : List Nat := [4000, 1000, 200, 40]

def encodeEntry (entry : Entry) : List UInt8 :=
  let data := encodeLine entry.fields
  if data.length ≤ maxRecordBytes then data
  else
    let trimmed := entry.fields.set truncatedKey (.bool true)
    if (trimmed.get? excKey).isSome then
      let trimmed := trimmed.erase excKey
      let data := encodeLine trimmed
      if data.length ≤ maxRecordBytes then data else shorten (messageOf trimmed) limits trimmed
    else shorten (messageOf trimmed) limits trimmed

theorem utf8EncodeChar_printable {c : Char} (h : c.toNat < 0x7f) :
    String.utf8EncodeChar c = [c.val.toUInt8] := by
  refine String.utf8EncodeChar_eq_singleton ?_
  have hval : c.val.toNat < 0x7f := h
  rw [Char.utf8Size, if_pos (UInt32.le_iff_toNat_le.mpr (Nat.le_of_lt hval))]

theorem length_encodeUtf8 {text : List Char} (h : Printable text) :
    (encodeUtf8 text).length = text.length := by
  unfold encodeUtf8
  induction text with
  | nil => rfl
  | cons c rest ih =>
      obtain ⟨hc, hrest⟩ := List.forall_mem_cons.mp h
      rw [List.flatMap_cons, utf8EncodeChar_printable hc.2, List.length_append, ih hrest,
        List.length_singleton, List.length_cons, Nat.add_comm]

theorem newline_not_mem {text : List Char} (h : Printable text) : 0x0a ∉ encodeUtf8 text := by
  intro hmem
  obtain ⟨c, hc, hbyte⟩ := List.mem_flatMap.mp hmem
  obtain ⟨hlow, hhigh⟩ := h c hc
  rw [utf8EncodeChar_printable hhigh, List.mem_singleton] at hbyte
  have hnat := congrArg UInt8.toNat hbyte
  have hval : c.val.toUInt8.toNat = c.toNat % 256 := UInt32.toNat_toUInt8 c.val
  rw [hval, Nat.mod_eq_of_lt (by omega)] at hnat
  have hten : (0x0a : UInt8).toNat = 10 := rfl
  omega

/-- A line is the JSON text of the fields and a newline. -/
theorem encodeLine_eq (fields : Fields) :
    encodeLine fields = encodeUtf8 (dumps (.dict fields.entries)) ++ [0x0a] := by
  unfold encodeLine encodeUtf8
  rw [List.flatMap_append]
  rfl

theorem length_encodeLine (fields : Fields) :
    (encodeLine fields).length = (dumps (.dict fields.entries)).length + 1 := by
  rw [encodeLine_eq, List.length_append, length_encodeUtf8 (printable_dumps _)]
  rfl

/-- What a member takes in an object, its comma included. -/
def memberSize (member : Text × Value) : Nat :=
  (dumpsStr member.1).length + (dumps member.2).length + 2

def size (members : List (Text × Value)) : Nat := (members.map memberSize).sum

theorem length_join_dumpsMembers (members : List (Text × Value)) :
    (join (dumpsMembers members)).length = size members - 1 := by
  induction members with
  | nil => rfl
  | cons member rest ih =>
      obtain ⟨key, value⟩ := member
      cases rest with
      | nil =>
          simp [dumpsMembers, join, size, memberSize]
          omega
      | cons next rest =>
          simp only [dumpsMembers, join, size, List.map_cons, List.sum_cons, memberSize,
            List.length_append, List.length_cons] at ih ⊢
          omega

theorem length_dumps_dict (members : List (Text × Value)) :
    (dumps (.dict members)).length = size members - 1 + 2 := by
  rw [dumps_dict, List.length_append, List.length_cons, length_join_dumpsMembers]
  rfl

def sizeAt (fields : Fields) (key : Text) : Nat :=
  size ((fields.get? key).toList.map fun value => (key, value))

theorem size_erase (fields : Fields) (key : Text) :
    size fields.entries = sizeAt fields key + size (fields.erase key).entries := by
  have hsplit : ∀ members : List (Text × Value), size members =
      size (members.filter fun member => member.1 = key) +
        size (members.filter fun member => member.1 ≠ key) := by
    intro members
    induction members with
    | nil => rfl
    | cons member rest ih =>
        unfold size at ih ⊢
        by_cases hkey : member.1 = key
        · simp only [hkey, List.map_cons, List.sum_cons, ih, decide_true, List.filter_cons_of_pos,
            ne_eq, not_true, decide_false, Bool.false_eq_true, not_false_iff,
            List.filter_cons_of_neg]
          omega
        · simp only [hkey, List.map_cons, List.sum_cons, ih, decide_true, List.filter_cons_of_pos,
            ne_eq, not_false_iff, decide_false, Bool.false_eq_true, List.filter_cons_of_neg]
          omega
  rw [hsplit fields.entries, sizeAt, Dict.filter_key]
  rfl

def ownKeys : List Text := [msgKey, excKey, truncatedKey]

/-- The fields that are neither message nor traceback nor mark. -/
def others (fields : Fields) : Fields := fields.eraseMany ownKeys

theorem size_others (fields : Fields) : size fields.entries = sizeAt fields msgKey +
    sizeAt fields excKey + sizeAt fields truncatedKey + size (others fields).entries := by
  have hexc : sizeAt (fields.erase msgKey) excKey = sizeAt fields excKey := by
    rw [sizeAt, sizeAt, Dict.get?_erase, if_neg (by decide)]
  have htruncated : sizeAt ((fields.erase msgKey).erase excKey) truncatedKey =
      sizeAt fields truncatedKey := by
    rw [sizeAt, sizeAt, Dict.get?_erase, Dict.get?_erase, if_neg (by decide), if_neg (by decide)]
  rw [size_erase fields msgKey, size_erase (fields.erase msgKey) excKey,
    size_erase ((fields.erase msgKey).erase excKey) truncatedKey, hexc, htruncated]
  have hothers : others fields =
      ((fields.erase msgKey).erase excKey).erase truncatedKey := rfl
  rw [hothers]
  omega

theorem length_dumpsStr_le {text : Text} {bound : Nat}
    (h : text.length ≤ bound) : (dumpsStr text).length ≤ 12 * bound + 2 := by
  have hbody : (text.flatMap escape).length ≤ 12 * text.length := by
    clear h
    induction text with
    | nil => exact Nat.le_refl 0
    | cons c rest ih =>
        have hc := length_escape_le c
        rw [List.flatMap_cons, List.length_append, List.length_cons]
        omega
  rw [dumpsStr, List.length_append, List.length_cons, List.length_singleton]
  omega

/-- A record without a traceback and with a message of this size fits, whether it is marked
or not. -/
theorem encodeLine_fits {fields : Fields} {msg : Text} (hmsg : fields.get? msgKey = some (.str msg))
    (hsize : (dumpsStr msg).length ≤ 48008) (hexc : fields.get? excKey = none)
    (htruncated : fields.get? truncatedKey = none ∨ fields.get? truncatedKey = some (.bool true))
    (hothers : (dumps (.dict (others fields).entries)).length ≤ 16384) :
    (encodeLine fields).length ≤ maxRecordBytes := by
  have hmsgSize : sizeAt fields msgKey ≤ 48015 := by
    rw [sizeAt, hmsg]
    have hkey : (dumpsStr msgKey).length = 5 := by decide
    simp only [size, Option.toList_some, List.map_cons, List.map_nil, List.sum_cons, List.sum_nil,
      memberSize, dumps_str, hkey]
    omega
  have hexcSize : sizeAt fields excKey = 0 := by
    rw [sizeAt, hexc]
    rfl
  have hmark : sizeAt fields truncatedKey ≤ 17 := by
    rcases htruncated with h | h
    · rw [sizeAt, h]
      exact Nat.zero_le 17
    · rw [sizeAt, h]
      decide
  rw [length_dumps_dict] at hothers
  rw [length_encodeLine, length_dumps_dict, size_others, maxRecordBytes]
  omega

theorem length_dumpsStr_shortened (msg : Text) :
    (dumpsStr (msg.take 4000 ++ ellipsis)).length ≤ 48008 := by
  have hfront := @length_dumpsStr_le (msg.take 4000) 4000 (List.length_take_le ..)
  have hlast : (ellipsis.flatMap escape).length = 6 := by decide
  unfold dumpsStr at hfront ⊢
  rw [List.length_append, List.length_cons] at hfront ⊢
  rw [List.flatMap_append, List.length_append, hlast]
  omega

/-- The marked record, without its traceback. -/
def marked (entry : Entry) : Fields :=
  match entry.exc with
  | none => entry.fields.set truncatedKey (.bool true)
  | some _ => (entry.fields.set truncatedKey (.bool true)).erase excKey

section

variable (entry : Entry)

theorem marked_get? (key : Text) : (marked entry).get? key =
    if key = excKey then none else if key = truncatedKey then some (.bool true)
      else entry.fields.get? key := by
  unfold marked
  cases hexc : entry.exc with
  | none =>
      have hnone := entry.hasExc
      rw [hexc, Option.map_none] at hnone
      dsimp only
      rw [Dict.get?_set]
      by_cases hkey : key = excKey
      · rw [hkey, if_neg (by decide), if_pos rfl, hnone]
      · rw [if_neg hkey]
  | some lines =>
      dsimp only
      rw [Dict.get?_erase, Dict.get?_set]

theorem others_marked : (others (marked entry)).entries = (others entry.fields).entries := by
  unfold marked
  split
  · exact Dict.entries_eraseMany_set entry.fields (by decide) _
  · exact (Dict.entries_eraseMany_erase _ (by decide)).trans
      (Dict.entries_eraseMany_set entry.fields (by decide) _)

theorem encodeEntry_eq : encodeEntry entry =
    if (encodeLine entry.fields).length ≤ maxRecordBytes then encodeLine entry.fields
    else if entry.exc.isSome ∧ (encodeLine (marked entry)).length ≤ maxRecordBytes then
      encodeLine (marked entry)
    else shorten entry.msg limits (marked entry) := by
  have hmsg : messageOf (marked entry) = entry.msg := by
    rw [messageOf, marked_get?, if_neg (by decide), if_neg (by decide), entry.hasMsg]
  have hexc : ((entry.fields.set truncatedKey (.bool true)).get? excKey).isSome =
      entry.exc.isSome := by
    rw [Dict.get?_set, if_neg (by decide), entry.hasExc, Option.isSome_map]
  unfold encodeEntry
  dsimp only
  rw [hexc]
  split
  · rfl
  · unfold marked at hmsg ⊢
    cases hlines : entry.exc with
    | none =>
        rw [hlines] at hmsg
        dsimp only at hmsg ⊢
        simp [hmsg]
    | some lines =>
        rw [hlines] at hmsg
        dsimp only at hmsg ⊢
        simp [hmsg]

/-- The record that is written: the entry, or the entry marked and cut so that it fits. -/
theorem encodeEntry_cases
    (hothers : (dumps (.dict (others entry.fields).entries)).length ≤ 16384) :
    ∃ fields, encodeEntry entry = encodeLine fields ∧
      (encodeLine fields).length ≤ maxRecordBytes ∧
      (others fields).entries = (others entry.fields).entries ∧
      ((encodeLine entry.fields).length ≤ maxRecordBytes ∧ fields = entry.fields ∨
        maxRecordBytes < (encodeLine entry.fields).length ∧
          fields.get? truncatedKey = some (.bool true)) := by
  have hmarkedMsg : (marked entry).get? msgKey = some (.str entry.msg) := by
    rw [marked_get?, if_neg (by decide), if_neg (by decide), entry.hasMsg]
  have hmarkedExc : (marked entry).get? excKey = none := by
    rw [marked_get?, if_pos rfl]
  have hmark : (marked entry).get? truncatedKey = some (.bool true) := by
    rw [marked_get?, if_neg (by decide), if_pos rfl]
  have hmarkedOthers : (dumps (.dict (others (marked entry)).entries)).length ≤ 16384 := by
    rwa [others_marked]
  rw [encodeEntry_eq]
  by_cases hplain : (encodeLine entry.fields).length ≤ maxRecordBytes
  · exact ⟨entry.fields, if_pos hplain, hplain, rfl, .inl ⟨hplain, rfl⟩⟩
  · rw [if_neg hplain]
    have hlong := Nat.lt_of_not_le hplain
    by_cases hdropped : entry.exc.isSome ∧ (encodeLine (marked entry)).length ≤ maxRecordBytes
    · exact ⟨marked entry, if_pos hdropped, hdropped.2, others_marked entry, .inr ⟨hlong, hmark⟩⟩
    · rw [if_neg hdropped]
      by_cases hshort : entry.msg.length ≤ 4000
      · -- with a message this short, only a traceback can have made the record too long
        have hsize : (dumpsStr entry.msg).length ≤ 48008 :=
          Nat.le_trans (length_dumpsStr_le hshort) (by decide)
        have hfits := encodeLine_fits hmarkedMsg hsize hmarkedExc (.inr hmark) hmarkedOthers
        have hnone : entry.fields.get? excKey = none := by
          rw [entry.hasExc]
          cases hexc : entry.exc with
          | none => rfl
          | some lines => exact absurd ⟨by rw [hexc]; rfl, hfits⟩ hdropped
        exact absurd (encodeLine_fits entry.hasMsg hsize hnone (.inl entry.whole) hothers) hplain
      · have hset := Dict.entries_eraseMany_set (marked entry)
          (by decide : msgKey ∈ ownKeys) (.str (entry.msg.take 4000 ++ ellipsis))
        have hfits := @encodeLine_fits
          ((marked entry).set msgKey (.str (entry.msg.take 4000 ++ ellipsis)))
          (entry.msg.take 4000 ++ ellipsis) (by rw [Dict.get?_set, if_pos rfl])
          (length_dumpsStr_shortened entry.msg)
          (by rw [Dict.get?_set, if_neg (by decide), hmarkedExc])
          (by rw [Dict.get?_set, if_neg (by decide)]; exact .inr hmark)
          (by unfold others; rwa [hset])
        refine ⟨_, ?_, hfits, hset.trans (others_marked entry), .inr ⟨hlong, ?_⟩⟩
        · rw [limits, shorten, if_pos (Nat.lt_of_not_le hshort)]
          exact if_pos hfits
        · rw [Dict.get?_set, if_neg (by decide), hmark]

/-- A record takes no more than its limit; it is one JSON object on a line of its own, which
differs from the entry in nothing but the message, the traceback and the mark, and that only
where the entry as it is would be too long. -/
theorem encodeEntry_bounded_whole_minimal
    (hothers : (encodeUtf8 (dumps (.dict (others entry.fields).entries))).length ≤ 16384) :
    (encodeEntry entry).length ≤ maxRecordBytes ∧
    (∃ text fields, encodeEntry entry = encodeUtf8 text ++ [0x0a] ∧ 0x0a ∉ encodeUtf8 text ∧
      Denotes text (.dict (Dict.entries fields)) ∧
      (others fields).entries = (others entry.fields).entries ∧
      fields.get? truncatedKey =
        if maxRecordBytes < (encodeLine entry.fields).length then some (.bool true) else none) ∧
    ((encodeLine entry.fields).length ≤ maxRecordBytes →
      encodeEntry entry = encodeLine entry.fields) := by
  rw [length_encodeUtf8 (printable_dumps _)] at hothers
  obtain ⟨fields, hdata, hlength, hsame, hwhich⟩ := encodeEntry_cases entry hothers
  refine ⟨hdata ▸ hlength, ⟨dumps (.dict fields.entries), fields,
    hdata.trans (encodeLine_eq fields), newline_not_mem (printable_dumps _), denotes_dumps _,
    hsame, ?_⟩, fun hplain => ?_⟩
  · rcases hwhich with ⟨hplain, rfl⟩ | ⟨hlong, hmark⟩
    · rw [if_neg (Nat.not_lt.mpr hplain), entry.whole]
    · rw [if_pos hlong, hmark]
  · rcases hwhich with ⟨-, rfl⟩ | ⟨hlong, -⟩
    · exact hdata
    · exact absurd hplain (Nat.not_le.mpr hlong)

end

/-- What a log record has that `emit` uses; `excInfo` is the formatted traceback. -/
structure LogRecord where
  created : Text
  levelname : Text
  process : Option Int
  name : Text
  message : Text
  excInfo : Option (List Text)

/-- The dictionary `emit` makes. -/
def emitted (component : Text) (seq : Nat) (record : LogRecord) : Fields where
  entries := [(ofString "ts", .str record.created), (ofString "seq", .int seq),
    (ofString "level", .str record.levelname), (ofString "component", .str component),
    (ofString "pid", record.process.elim .null .int), (ofString "logger", .str record.name),
    (msgKey, .str record.message)]
  nodup := by
    simp only [List.map_cons, List.map_nil]
    decide

def entryOf (component : Text) (seq : Nat) (record : LogRecord) : Entry where
  fields := match record.excInfo with
    | none => emitted component seq record
    | some lines => (emitted component seq record).set excKey (.list (lines.map .str))
  msg := record.message
  hasMsg := by
    cases record.excInfo with
    | none => rfl
    | some lines => rw [Dict.get?_set, if_neg (by decide)]; rfl
  exc := record.excInfo
  hasExc := by
    cases record.excInfo with
    | none => rfl
    | some lines => rw [Dict.get?_set, if_pos rfl]; rfl
  whole := by
    cases record.excInfo with
    | none => rfl
    | some lines => rw [Dict.get?_set, if_neg (by decide)]; rfl

def ready : LogRecord :=
  ⟨ofString "2026-01-01T00:00:00.000000Z", ofString "INFO", some 7, ofString "root",
    ofString "ready", none⟩

def chatty (count : Nat) : LogRecord :=
  { ready with message := List.replicate count ⟨0x61, by decide⟩ }

theorem others_chatty (count : Nat) :
    (others (entryOf (ofString "monitor") 0 (chatty count)).fields).entries =
      (others (entryOf (ofString "monitor") 0 ready).fields).entries := rfl

theorem others_ready : (encodeUtf8 (dumps
    (.dict (others (entryOf (ofString "monitor") 0 ready).fields).entries))).length ≤ 16384 := by
  decide +kernel

theorem chatty_long {count : Nat} (h : maxRecordBytes ≤ count) : maxRecordBytes <
    (encodeLine (entryOf (ofString "monitor") 0 (chatty count)).fields).length := by
  have hmsg : (entryOf (ofString "monitor") 0 (chatty count)).fields.get? msgKey =
    some (.str (chatty count).message) := rfl
  have hescape : (escape ⟨0x61, by decide⟩).length = 1 := by decide
  rw [length_encodeLine, length_dumps_dict, size_others, sizeAt, hmsg, chatty]
  simp only [size, Option.toList_some, List.map_cons, List.map_nil, List.sum_cons, List.sum_nil,
    memberSize, dumps_str, dumpsStr, List.length_append, List.length_cons, List.length_flatMap,
    List.map_replicate, hescape, List.sum_replicate_nat]
  omega

/-- A short record goes out as it is, a long one shortened and marked. -/
theorem encodeEntry_bounded_whole_minimal_ready :
    encodeEntry (entryOf (ofString "monitor") 0 ready) =
        encodeLine (entryOf (ofString "monitor") 0 ready).fields ∧
      (encodeEntry (entryOf (ofString "monitor") 0 (chatty 70000))).length ≤ maxRecordBytes ∧
      ∃ text fields, encodeEntry (entryOf (ofString "monitor") 0 (chatty 70000)) =
          encodeUtf8 text ++ [0x0a] ∧ Denotes text (.dict (Dict.entries fields)) ∧
        fields.get? truncatedKey = some (.bool true) := by
  refine ⟨(encodeEntry_bounded_whole_minimal (entryOf (ofString "monitor") 0 ready)
    others_ready).2.2 (by decide +kernel), ?_⟩
  obtain ⟨hbound, ⟨text, fields, hdata, -, hdenotes, -, hmark⟩, -⟩ :=
    encodeEntry_bounded_whole_minimal (entryOf (ofString "monitor") 0 (chatty 70000))
      (by rw [others_chatty]; exact others_ready)
  rw [if_pos (chatty_long (by decide))] at hmark
  exact ⟨hbound, text, fields, hdata, hdenotes, hmark⟩

section
open Transfer

abbrev LogCall := Call Nat Empty

/-- How `_write_all` has come out; without a result for its next call it is still
`writing`. -/
inductive Written where
  | returned
  | raised
  | writing
  deriving DecidableEq

/-- The loop of `_write_all` from an offset on, over the results of its calls. -/
def writeAll (fd : Nat) (data : List UInt8) : Nat → List (Result Nat) → Written × List LogCall
  | offset, [] => (if offset < data.length then .writing else .returned, [])
  | offset, result :: results =>
      if offset < data.length then
        let written : Written × List LogCall := match result with
          | .returned count => writeAll fd data (offset + count) results
          | .interrupted => writeAll fd data offset results
          | .failed => (.raised, [])
        (written.1, .write fd (data.drop offset) result :: written.2)
      else (.returned, [])

theorem writeAll_done {fd offset : Nat} {data : List UInt8} (h : data.length ≤ offset)
    (results : List (Result Nat)) : writeAll fd data offset results = (.returned, []) := by
  cases results with
  | nil => rw [writeAll, if_neg (Nat.not_lt.mpr h)]
  | cons result => cases result <;> rw [writeAll, if_neg (Nat.not_lt.mpr h)]

/-- Whatever the calls return, what is written is the beginning of what is left to
write, and all of it when `_write_all` returns. -/
theorem writeAll_delivers (fd : Nat) (data : List UInt8) (offset : Nat)
    (results : List (Result Nat)) :
    ∃ rest, data.drop offset = delivered fd (writeAll fd data offset results).2 ++ rest ∧
      ((writeAll fd data offset results).1 = .returned → rest = []) := by
  induction results generalizing offset with
  | nil =>
      refine ⟨data.drop offset, rfl, fun h => ?_⟩
      rw [writeAll] at h
      split at h
      · cases h
      · exact List.drop_eq_nil_of_le (by omega)
  | cons result results ih =>
      by_cases hoffset : offset < data.length
      case neg =>
        rw [writeAll_done (by omega)]
        exact ⟨[], by rw [List.drop_eq_nil_of_le (by omega)]; rfl, fun _ => rfl⟩
      cases result with
      | interrupted =>
          rw [writeAll, if_pos hoffset]
          exact ih offset
      | failed =>
          rw [writeAll, if_pos hoffset]
          exact ⟨data.drop offset, rfl, fun h => by cases h⟩
      | returned count =>
          rw [writeAll, if_pos hoffset]
          obtain ⟨rest, hrest, hreturned⟩ := ih (offset + count)
          refine ⟨rest, ?_, hreturned⟩
          have hgiven : (Call.write fd (data.drop offset) (.returned count) : LogCall).given fd =
              (data.drop offset).take count := if_pos rfl
          rw [delivered, List.flatMap_cons, hgiven, List.append_assoc, ← delivered, ← hrest,
            ← List.drop_drop, List.take_append_drop]

/-- Every legal write takes a byte, so that there are never more calls than bytes. -/
theorem writeAll_returns {fd offset : Nat} {data : List UInt8} {results : List (Result Nat)}
    (hlegal : ∀ call ∈ (writeAll fd data offset results).2, call.Legal)
    (hresults : data.length ≤ offset + results.length) :
    (writeAll fd data offset results).1 = .returned := by
  induction results generalizing offset with
  | nil => rw [writeAll_done (by simpa using hresults)]
  | cons result results ih =>
      by_cases hoffset : offset < data.length
      case neg => rw [writeAll_done (by omega)]
      cases result with
      | interrupted | failed =>
          rw [writeAll, if_pos hoffset] at hlegal
          exact (List.forall_mem_cons.mp hlegal).1.elim
      | returned count =>
          rw [writeAll, if_pos hoffset] at hlegal ⊢
          obtain ⟨hcall, hcalls⟩ := List.forall_mem_cons.mp hlegal
          have hpos : 0 < count := by
            refine hcall.2 (List.ne_nil_of_length_pos ?_)
            rw [List.length_drop]
            omega
          rw [List.length_cons] at hresults
          exact ih hcalls (by omega)

/-- `emit`; its handler takes an exception that a write raises. -/
def emit (fd : Nat) (component : Text) (seq : Nat) (record : LogRecord)
    (results : List (Result Nat)) : Written × List LogCall :=
  writeAll fd (encodeEntry (entryOf component seq record)) 0 results

/-- The log gets the whole line, or the beginning of it when a write raises. -/
theorem emit_delivers (fd : Nat) (component : Text) (seq : Nat) (record : LogRecord)
    (results : List (Result Nat)) :
    delivered fd (emit fd component seq record results).2 <+:
        encodeEntry (entryOf component seq record) ∧
      ((emit fd component seq record results).1 = .returned →
        delivered fd (emit fd component seq record results).2 =
          encodeEntry (entryOf component seq record)) := by
  obtain ⟨rest, hdata, hreturned⟩ :=
    writeAll_delivers fd (encodeEntry (entryOf component seq record)) 0 results
  rw [List.drop_zero] at hdata
  refine ⟨⟨rest, hdata.symm⟩, fun h => ?_⟩
  rw [hreturned h, List.append_nil] at hdata
  exact hdata.symm

end

end Vnctlsd.Logger
