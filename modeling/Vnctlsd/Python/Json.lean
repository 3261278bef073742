import Vnctlsd.Library.Dict
import Vnctlsd.Library.Json

/-! `json.dumps` with the separators `,` and `:`, which escapes all that is not printable
ASCII. -/
namespace Vnctlsd.Python.Json
open Vnctlsd.Library Json

/-- `'{0:04x}'` of a number below 0x10000. -/
def hex4 (n : Nat) : List Char :=
  [n / 4096 % 16, n / 256 % 16, n / 16 % 16, n % 16].map Nat.digitChar

def unicodeEscape (n : Nat) : List Char := '\\' :: 'u' :: hex4 n

def escapeDct : List (Nat × Char) :=
  [(0x5c, '\\'), (0x22, '"'), (0x08, 'b'), (0x0c, 'f'), (0x0a, 'n'), (0x0d, 'r'), (0x09, 't')]

def escape (c : CodePoint) : List Char :=
  match escapeDct.lookup c.val with
  | some letter => ['\\', letter]
  | none =>
      if 0x20 ≤ c.val ∧ c.val ≤ 0x7e then [Char.ofNat c.val]
      else if c.val < 0x10000 then unicodeEscape c.val
      else
        let n := c.val - 0x10000
        unicodeEscape (0xd800 ||| (n >>> 10 &&& 0x3ff)) ++ unicodeEscape (0xdc00 ||| (n &&& 0x3ff))

def dumpsStr (text : Text) : List Char := '"' :: text.flatMap escape ++ ['"']

/-- `','.join(texts)`. -/
def join : List (List Char) → List Char
  | [] => []
  | [text] => text
  | text :: rest => text ++ ',' :: join rest

mutual

def dumps : Value → List Char
  | .null => "null".toList
  | .bool true => "true".toList
  | .bool false => "false".toList
  | .int i => decimal i
  | .float literal => literal.text
  | .str text => dumpsStr text
  | .list items => '[' :: join (dumpsItems items) ++ [']']
  | .dict members => '{' :: join (dumpsMembers members) ++ ['}']

def dumpsItems : List Value → List (List Char)
  | [] => []
  | item :: rest => dumps item :: dumpsItems rest

def dumpsMembers : List (Text × Value) → List (List Char)
  | [] => []
  | (key, value) :: rest => (dumpsStr key ++ ':' :: dumps value) :: dumpsMembers rest

end

theorem dumps_str (text : Text) : dumps (.str text) = dumpsStr text := rfl

theorem dumps_dict (members : List (Text × Value)) :
    dumps (.dict members) = '{' :: join (dumpsMembers members) ++ ['}'] :=
  rfl

theorem hexDigit?_digitChar : ∀ d, d < 16 → hexDigit? (Nat.digitChar d) = some d := by
  decide

section

variable {body : List Char} {units : List Nat}

theorem stringBody_unicodeEscape {n : Nat} (hn : n < 0x10000) (h : StringBody body units) :
    StringBody (unicodeEscape n ++ body) (n :: units) := by
  have hvalue : ((n / 4096 % 16 * 16 + n / 256 % 16) * 16 + n / 16 % 16) * 16 + n % 16 = n := by
    omega
  have hdigit (m : Nat) : hexDigit? (Nat.digitChar (m % 16)) = some (m % 16) :=
    hexDigit?_digitChar _ (Nat.mod_lt m (by decide))
  have hhex := StringBody.hex (hdigit (n / 4096)) (hdigit (n / 256)) (hdigit (n / 16)) (hdigit n) h
  rwa [hvalue] at hhex

/-- The two halves are what the shifts and masks make of them. -/
theorem surrogates {n : Nat} (hn : n < 0x100000) :
    0xd800 ||| (n >>> 10 &&& 0x3ff) = 0xd800 + n / 0x400 ∧
      0xdc00 ||| (n &&& 0x3ff) = 0xdc00 + n % 0x400 := by
  have hmask (m : Nat) : m &&& 0x3ff = m % 0x400 := Nat.and_two_pow_sub_one_eq_mod m 10
  have hor (base m : Nat) (hm : m < 0x400) : 0x400 * base ||| m = 0x400 * base + m :=
    (@Nat.two_pow_add_eq_or_of_lt 10 m hm base).symm
  rw [Nat.shiftRight_eq_div_pow, hmask, hmask]
  constructor
  · rw [Nat.mod_eq_of_lt (by omega)]
    exact hor 54 (n / 0x400) (by omega)
  · exact hor 55 (n % 0x400) (Nat.mod_lt n (by decide))

theorem escapeDct_spec : ∀ entry ∈ escapeDct,
    (entry.2, entry.1) ∈ shortEscapes ∧ entry.1 < 0x10000 := by
  decide

theorem stringBody_escape (c : CodePoint) (h : StringBody body units) :
    StringBody (escape c ++ body) (utf16 c ++ units) := by
  unfold escape
  cases hlookup : escapeDct.lookup c.val with
  | some letter =>
      obtain ⟨hshort, hsmall⟩ := escapeDct_spec _ (mem_of_lookup hlookup)
      dsimp only at hshort hsmall ⊢
      rw [utf16, if_pos hsmall]
      exact .short hshort h
  | none =>
      dsimp only
      split
      · rename_i hprintable
        have hvalid : Nat.isValidChar c.val := .inl (by omega)
        have hnat : (Char.ofNat c.val).toNat = c.val := by
          rw [Char.ofNat, dif_pos hvalid]
          rfl
        have hchar : ofChar (Char.ofNat c.val) = c := Fin.ext hnat
        have hne : ∀ special : Char, escapeDct.lookup special.toNat ≠ none →
            Char.ofNat c.val ≠ special := by
          rintro special hspecial rfl
          rw [hnat] at hspecial
          exact hspecial hlookup
        rw [← hchar, hchar]
        have hplain := @StringBody.plain (Char.ofNat c.val) body units (by omega)
          (hne '"' (by decide)) (hne '\\' (by decide)) h
        rwa [hchar] at hplain
      · split
        · rename_i hsmall
          rw [utf16, if_pos hsmall]
          exact stringBody_unicodeEscape hsmall h
        · rename_i hlarge
          have hbound := c.isLt
          obtain ⟨hhigh, hlow⟩ := @surrogates (c.val - 0x10000) (by omega)
          rw [utf16, if_neg hlarge, hhigh, hlow, List.append_assoc]
          exact stringBody_unicodeEscape (by omega) (stringBody_unicodeEscape (by omega) h)

end

theorem stringText_dumpsStr (text : Text) : StringText (dumpsStr text) text := by
  refine .mk ?_
  induction text with
  | nil => exact .nil
  | cons c rest ih =>
      rw [List.flatMap_cons, List.flatMap_cons]
      exact stringBody_escape c ih

mutual

theorem denotes_dumps : (value : Value) → Denotes (dumps value) value
  | .null => .null
  | .bool true => .true
  | .bool false => .false
  | .int i => .int (isNumber_decimal i)
  | .float literal => .float literal
  | .str text => .str (stringText_dumpsStr text)
  | .list [] => .emptyList
  | .list (item :: rest) => .list (items_dumpsItems (item :: rest) (List.cons_ne_nil _ _))
  | .dict [] => .emptyDict
  | .dict (member :: rest) => .dict (members_dumpsMembers (member :: rest) (List.cons_ne_nil _ _))

theorem items_dumpsItems : (items : List Value) → items ≠ [] →
    Items (join (dumpsItems items)) items
  | [], h => absurd rfl h
  | [item], _ => .one (denotes_dumps item)
  | item :: next :: rest, _ =>
      .cons (denotes_dumps item) (items_dumpsItems (next :: rest) (List.cons_ne_nil _ _))

theorem members_dumpsMembers : (members : List (Text × Value)) → members ≠ [] →
    Members (join (dumpsMembers members)) members
  | [], h => absurd rfl h
  | [(key, value)], _ => .one (stringText_dumpsStr key) (denotes_dumps value)
  | (key, value) :: next :: rest, _ => .cons (stringText_dumpsStr key) (denotes_dumps value)
      (members_dumpsMembers (next :: rest) (List.cons_ne_nil _ _))

end

theorem printable_unicodeEscape (n : Nat) : Printable (unicodeEscape n) := by
  have hdigit : ∀ d, d < 16 → 0x20 ≤ (Nat.digitChar d).toNat ∧ (Nat.digitChar d).toNat < 0x7f := by
    decide
  refine .cons (by decide) (.cons (by decide) fun c hc => ?_)
  obtain ⟨d, hd, rfl⟩ := List.mem_map.mp hc
  simp only [List.mem_cons, List.not_mem_nil, or_false] at hd
  exact hdigit d (by omega)

theorem printable_escape (c : CodePoint) : Printable (escape c) := by
  have hletters : ∀ entry ∈ escapeDct, 0x20 ≤ entry.2.toNat ∧ entry.2.toNat < 0x7f := by decide
  unfold escape
  split
  · rename_i letter hlookup
    exact .cons (by decide) (List.forall_mem_singleton.mpr (hletters _ (mem_of_lookup hlookup)))
  · split
    · rename_i hprintable
      have hvalid : Nat.isValidChar c.val := .inl (by omega)
      have hnat : (Char.ofNat c.val).toNat = c.val := by
        rw [Char.ofNat, dif_pos hvalid]
        rfl
      exact List.forall_mem_singleton.mpr (by omega)
    · split
      · exact printable_unicodeEscape c.val
      · exact .append (printable_unicodeEscape _) (printable_unicodeEscape _)

/-- The longest escape is that of a surrogate pair. -/
theorem length_escape_le (c : CodePoint) : (escape c).length ≤ 12 := by
  unfold escape
  split
  · exact (by decide : 2 ≤ 12)
  · split
    · exact (by decide : 1 ≤ 12)
    · split
      · exact (by decide : 6 ≤ 12)
      · exact Nat.le_refl 12

theorem printable_dumpsStr (text : Text) : Printable (dumpsStr text) := by
  refine .append (.cons (by decide) ?_) (List.forall_mem_singleton.mpr (by decide))
  intro d hd
  obtain ⟨c, -, hd⟩ := List.mem_flatMap.mp hd
  exact printable_escape c d hd

theorem printable_join {texts : List (List Char)} (h : ∀ text ∈ texts, Printable text) :
    Printable (join texts) := by
  induction texts with
  | nil => exact fun _ hc => (List.not_mem_nil hc).elim
  | cons text rest ih =>
      obtain ⟨htext, hrest⟩ := List.forall_mem_cons.mp h
      cases rest with
      | nil => exact htext
      | cons next rest => exact .append htext (.cons (by decide) (ih hrest))

mutual

theorem printable_dumps : (value : Value) → Printable (dumps value)
  | .null => (by decide : Printable "null".toList)
  | .bool true => (by decide : Printable "true".toList)
  | .bool false => (by decide : Printable "false".toList)
  | .int i => printable_of_isNumber (isNumber_decimal i)
  | .float literal => printable_of_isNumber literal.isNumber
  | .str text => printable_dumpsStr text
  | .list items => .append (.cons (by decide) (printable_join (printable_dumpsItems items)))
      (List.forall_mem_singleton.mpr (by decide))
  | .dict members => .append (.cons (by decide) (printable_join (printable_dumpsMembers members)))
      (List.forall_mem_singleton.mpr (by decide))

theorem printable_dumpsItems : (items : List Value) →
    ∀ text ∈ dumpsItems items, Printable text
  | [], _, htext => (List.not_mem_nil htext).elim
  | item :: rest, text, htext => (List.mem_cons.mp htext).elim
      (fun heq => heq ▸ printable_dumps item) (printable_dumpsItems rest text)

theorem printable_dumpsMembers : (members : List (Text × Value)) →
    ∀ text ∈ dumpsMembers members, Printable text
  | [], _, htext => (List.not_mem_nil htext).elim
  | (key, value) :: rest, text, htext => (List.mem_cons.mp htext).elim
      (fun heq => heq ▸
        .append (printable_dumpsStr key) (.cons (by decide) (printable_dumps value)))
      (printable_dumpsMembers rest text)

end

end Vnctlsd.Python.Json
