import Mathlib.Data.List.Basic

/-! JSON texts and the values they denote.  A string is a sequence of code points, lone
surrogates among them, and a text gives its UTF-16 code units.  The grammar is that of
texts without spaces between the tokens. -/
namespace Vnctlsd.Library.Json

abbrev CodePoint := Fin 0x110000

abbrev Text := List CodePoint

def ofChar (c : Char) : CodePoint := ⟨c.toNat, by
  have hvalid : c.toNat < 0xd800 ∨ 0xdfff < c.toNat ∧ c.toNat < 0x110000 := c.valid
  omega⟩

def ofString (s : String) : Text := s.toList.map ofChar

/-- The code units of a code point; from 0x10000 on there are two. -/
def utf16 (c : CodePoint) : List Nat :=
  if c.val < 0x10000 then [c.val]
  else [0xd800 + (c.val - 0x10000) / 0x400, 0xdc00 + (c.val - 0x10000) % 0x400]

def IsDigit (c : Char) : Prop := '0' ≤ c ∧ c ≤ '9'

inductive IsDigits : List Char → Prop where
  | one {c : Char} : IsDigit c → IsDigits [c]
  | cons {c : Char} {rest : List Char} : IsDigit c → IsDigits rest → IsDigits (c :: rest)

/-- No number but zero itself begins with a zero. -/
inductive IsNatural : List Char → Prop where
  | zero : IsNatural ['0']
  | digits {c : Char} {rest : List Char} : c ≠ '0' → IsDigits (c :: rest) → IsNatural (c :: rest)

inductive IsFraction : List Char → Prop where
  | none : IsFraction []
  | digits {rest : List Char} : IsDigits rest → IsFraction ('.' :: rest)

inductive IsExponent : List Char → Prop where
  | none : IsExponent []
  | digits {mark : Char} {sign rest : List Char} : mark ∈ ['e', 'E'] →
      sign ∈ [[], ['+'], ['-']] → IsDigits rest → IsExponent (mark :: sign ++ rest)

inductive IsNumber : List Char → Prop where
  | mk {sign natural fraction exponent : List Char} : sign ∈ [[], ['-']] → IsNatural natural →
      IsFraction fraction → IsExponent exponent →
      IsNumber (sign ++ natural ++ fraction ++ exponent)

def decimal : Int → List Char
  | .ofNat n => Nat.toDigits 10 n
  | .negSucc n => '-' :: Nat.toDigits 10 (n + 1)

theorem digitChar_spec :
    ∀ d, d < 10 → IsDigit (Nat.digitChar d) ∧ (d ≠ 0 → Nat.digitChar d ≠ '0') := by
  unfold IsDigit
  decide

theorem IsDigits.append_digit {digits : List Char} (h : IsDigits digits) {c : Char}
    (hc : IsDigit c) : IsDigits (digits ++ [c]) := by
  induction h with
  | one hd => exact .cons hd (.one hc)
  | cons hd _ ih => exact .cons hd ih

theorem isDigits_toDigits (n : Nat) :
    n ≠ 0 → ∃ c rest, Nat.toDigits 10 n = c :: rest ∧ c ≠ '0' ∧ IsDigits (c :: rest) := by
  induction n using Nat.strongRecOn with
  | ind n ih =>
      intro hn
      rw [Nat.toDigits_eq_if (by decide)]
      split
      · rename_i hlt
        obtain ⟨hdigit, hzero⟩ := digitChar_spec n hlt
        exact ⟨Nat.digitChar n, [], rfl, hzero hn, .one hdigit⟩
      · obtain ⟨c, rest, heq, hc, hdigits⟩ := ih (n / 10) (by omega) (by omega)
        rw [heq]
        exact ⟨c, rest ++ [Nat.digitChar (n % 10)], rfl, hc,
          hdigits.append_digit (digitChar_spec _ (Nat.mod_lt n (by decide))).1⟩

theorem isNatural_toDigits (n : Nat) : IsNatural (Nat.toDigits 10 n) := by
  by_cases hn : n = 0
  · subst hn
    exact .zero
  · obtain ⟨c, rest, heq, hc, hdigits⟩ := isDigits_toDigits n hn
    rw [heq]
    exact .digits hc hdigits

theorem IsNumber.integer {sign natural : List Char} (hsign : sign ∈ [[], ['-']])
    (h : IsNatural natural) : IsNumber (sign ++ natural) := by
  have hnumber := IsNumber.mk hsign h .none .none
  rwa [List.append_nil, List.append_nil] at hnumber

theorem isNumber_decimal (i : Int) : IsNumber (decimal i) := by
  cases i with
  | ofNat n => exact @IsNumber.integer [] _ (by simp) (isNatural_toDigits n)
  | negSucc n => exact @IsNumber.integer ['-'] _ (by simp) (isNatural_toDigits (n + 1))

/-- Printable ASCII. -/
def Printable (text : List Char) : Prop := ∀ c ∈ text, 0x20 ≤ c.toNat ∧ c.toNat < 0x7f

instance (text : List Char) : Decidable (Printable text) :=
  List.decidableBAll (fun c : Char => 0x20 ≤ c.toNat ∧ c.toNat < 0x7f) text

theorem Printable.cons {c : Char} {text : List Char} (hc : 0x20 ≤ c.toNat ∧ c.toNat < 0x7f)
    (h : Printable text) : Printable (c :: text) :=
  List.forall_mem_cons.mpr ⟨hc, h⟩

theorem Printable.append {left right : List Char} (hleft : Printable left)
    (hright : Printable right) : Printable (left ++ right) :=
  List.forall_mem_append.mpr ⟨hleft, hright⟩

theorem IsDigit.printable {c : Char} (h : IsDigit c) : 0x20 ≤ c.toNat ∧ c.toNat < 0x7f := by
  have hlow : 48 ≤ c.toNat := h.1
  have hhigh : c.toNat ≤ 57 := h.2
  omega

theorem IsDigits.printable {digits : List Char} (h : IsDigits digits) : Printable digits := by
  induction h with
  | one hc => exact List.forall_mem_singleton.mpr hc.printable
  | cons hc _ ih => exact .cons hc.printable ih

theorem printable_of_isNumber {text : List Char} (h : IsNumber text) : Printable text := by
  have hsigns : ∀ sign ∈ [[], ['+'], ['-']], Printable sign := by decide
  have hmarks : Printable ['e', 'E'] := by decide
  obtain ⟨hsign, hnatural, hfraction, hexponent⟩ := h
  refine .append (.append (.append ?_ ?_) ?_) ?_
  · refine hsigns _ ?_
    rcases List.mem_pair.mp hsign with rfl | rfl <;> simp
  · cases hnatural with
    | zero => exact List.forall_mem_singleton.mpr (by decide)
    | digits _ hdigits => exact hdigits.printable
  · cases hfraction with
    | none => exact fun _ hc => (List.not_mem_nil hc).elim
    | digits hdigits => exact .cons (by decide) hdigits.printable
  · cases hexponent with
    | none => exact fun _ hc => (List.not_mem_nil hc).elim
    | digits hmark hsign hdigits =>
        exact .cons (hmarks _ hmark) (.append (hsigns _ hsign) hdigits.printable)

def hexDigit? (c : Char) : Option Nat :=
  if '0' ≤ c ∧ c ≤ '9' then some (c.toNat - 48)
  else if 'a' ≤ c ∧ c ≤ 'f' then some (c.toNat - 87)
  else if 'A' ≤ c ∧ c ≤ 'F' then some (c.toNat - 55)
  else none

def shortEscapes : List (Char × Nat) :=
  [('"', 0x22), ('\\', 0x5c), ('/', 0x2f), ('b', 0x08), ('f', 0x0c), ('n', 0x0a), ('r', 0x0d),
    ('t', 0x09)]

/-- What stands between the quotation marks, and the code units it gives. -/
inductive StringBody : List Char → List Nat → Prop where
  | nil : StringBody [] []
  | plain {c : Char} {body : List Char} {units : List Nat} : 0x20 ≤ c.toNat → c ≠ '"' → c ≠ '\\' →
      StringBody body units → StringBody (c :: body) (utf16 (ofChar c) ++ units)
  | short {letter : Char} {unit : Nat} {body : List Char} {units : List Nat} :
      (letter, unit) ∈ shortEscapes → StringBody body units →
      StringBody ('\\' :: letter :: body) (unit :: units)
  | hex {a b c d : Char} {va vb vc vd : Nat} {body : List Char} {units : List Nat} :
      hexDigit? a = some va → hexDigit? b = some vb → hexDigit? c = some vc →
      hexDigit? d = some vd → StringBody body units →
      StringBody ('\\' :: 'u' :: a :: b :: c :: d :: body)
        ((((va * 16 + vb) * 16 + vc) * 16 + vd) :: units)

inductive StringText : List Char → Text → Prop where
  | mk {body : List Char} {text : Text} : StringBody body (text.flatMap utf16) →
      StringText ('"' :: body ++ ['"']) text

/-- The literal of a number that is no integer. -/
structure Literal where
  text : List Char
  isNumber : IsNumber text

inductive Value where
  | null
  | bool (b : Bool)
  | int (i : Int)
  | float (literal : Literal)
  | str (text : Text)
  | list (items : List Value)
  | dict (members : List (Text × Value))

mutual

inductive Denotes : List Char → Value → Prop where
  | null : Denotes "null".toList .null
  | true : Denotes "true".toList (.bool true)
  | false : Denotes "false".toList (.bool false)
  | int {i : Int} : IsNumber (decimal i) → Denotes (decimal i) (.int i)
  | float (literal : Literal) : Denotes literal.text (.float literal)
  | str {body : List Char} {text : Text} : StringText body text → Denotes body (.str text)
  | emptyList : Denotes ['[', ']'] (.list [])
  | list {text : List Char} {items : List Value} : Items text items →
      Denotes ('[' :: text ++ [']']) (.list items)
  | emptyDict : Denotes ['{', '}'] (.dict [])
  | dict {text : List Char} {members : List (Text × Value)} : Members text members →
      Denotes ('{' :: text ++ ['}']) (.dict members)

inductive Items : List Char → List Value → Prop where
  | one {text : List Char} {item : Value} : Denotes text item → Items text [item]
  | cons {text rest : List Char} {item : Value} {items : List Value} : Denotes text item →
      Items rest items → Items (text ++ ',' :: rest) (item :: items)

inductive Members : List Char → List (Text × Value) → Prop where
  | one {name text : List Char} {key : Text} {value : Value} : StringText name key →
      Denotes text value → Members (name ++ ':' :: text) [(key, value)]
  | cons {name text rest : List Char} {key : Text} {value : Value}
      {members : List (Text × Value)} : StringText name key → Denotes text value →
      Members rest members →
      Members (name ++ ':' :: text ++ ',' :: rest) ((key, value) :: members)

end

end Vnctlsd.Library.Json
