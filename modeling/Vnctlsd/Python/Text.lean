import Vnctlsd.Python.Value

/-! The string methods the daemon uses: white space, lines and decimal
numbers, with the Unicode ranges the interpreter gives them. -/
namespace Vnctlsd.Python.Text

def isSpace (c : Char) : Bool :=
  let n := c.toNat
  (9 ≤ n && n ≤ 13) || (28 ≤ n && n ≤ 32) || n == 0x85 || n == 0xa0 || n == 0x1680 ||
    (0x2000 ≤ n && n ≤ 0x200a) || n == 0x2028 || n == 0x2029 || n == 0x202f ||
    n == 0x205f || n == 0x3000

/-- The bytes of ASCII text. -/
def ascii (text : String) : List UInt8 := text.toList.map fun c => .ofNat c.toNat

/-- A property of bytes, value by value. -/
theorem forall_byte {P : UInt8 → Prop} (h : ∀ code < 256, P (.ofNat code)) (c : UInt8) :
    P c := by
  rw [← UInt8.ofNat_toNat (x := c)]
  exact h c.toNat (UInt8.toNat_lt c)

def isLineBreak (c : Char) : Bool :=
  let n := c.toNat
  (10 ≤ n && n ≤ 13) || (28 ≤ n && n ≤ 30) || n == 0x85 || n == 0x2028 || n == 0x2029

def stripRight (drop : Char → Bool) (s : List Char) : List Char :=
  (s.reverse.dropWhile drop).reverse

def strip (s : String) : String :=
  String.ofList (stripRight isSpace (s.toList.dropWhile isSpace))

def rstrip (s : String) : String :=
  String.ofList (stripRight isSpace s.toList)

def lstripChars (chars : List Char) (s : String) : String :=
  String.ofList (s.toList.dropWhile fun c => chars.contains c)

def splitlinesFrom (line : List Char) : List Char → List String
  | [] => if line.isEmpty then [] else [String.ofList line.reverse]
  | '\r' :: '\n' :: rest => String.ofList line.reverse :: splitlinesFrom [] rest
  | c :: rest =>
      if isLineBreak c then String.ofList line.reverse :: splitlinesFrom [] rest
      else splitlinesFrom (c :: line) rest

def splitlines (s : String) : List String := splitlinesFrom [] s.toList

def decimalZeros : List Nat :=
  [0x30, 0x660, 0x6f0, 0x7c0, 0x966, 0x9e6, 0xa66, 0xae6, 0xb66, 0xbe6, 0xc66, 0xce6,
    0xd66, 0xde6, 0xe50, 0xed0, 0xf20, 0x1040, 0x1090, 0x17e0, 0x1810, 0x1946, 0x19d0,
    0x1a80, 0x1a90, 0x1b50, 0x1bb0, 0x1c40, 0x1c50, 0xa620, 0xa8d0, 0xa900, 0xa9d0,
    0xa9f0, 0xaa50, 0xabf0, 0xff10, 0x104a0, 0x10d30, 0x11066, 0x110f0, 0x11136,
    0x111d0, 0x112f0, 0x11450, 0x114d0, 0x11650, 0x116c0, 0x11730, 0x118e0, 0x11950,
    0x11c50, 0x11d50, 0x11da0, 0x11f50, 0x16a60, 0x16ac0, 0x16b50, 0x1d7ce, 0x1d7d8,
    0x1d7e2, 0x1d7ec, 0x1d7f6, 0x1e140, 0x1e2f0, 0x1e4f0, 0x1e950, 0x1fbf0]

def decimal? (c : Char) : Option Nat :=
  (decimalZeros.find? fun base => base ≤ c.toNat && c.toNat < base + 10).map
    fun base => c.toNat - base

/-- Digits with single underscores between them; `gap` says that a digit must
come next. -/
def digitsFrom (value : Nat) (gap : Bool) : List Char → Option Nat
  | [] => if gap then none else some value
  | c :: rest =>
      if c = '_' then if gap then none else digitsFrom value true rest
      else (decimal? c).bind fun d => digitsFrom (10 * value + d) false rest

def maxIntDigits : Nat := 4300

/-- `int(s)`; `none` is its `ValueError`. -/
def int? (s : String) : Option Int :=
  let body := (strip s).toList
  let (negative, digits) := match body with
    | '-' :: rest => (true, rest)
    | '+' :: rest => (false, rest)
    | _ => (false, body)
  if maxIntDigits < (digits.filter fun c => (decimal? c).isSome).length then none
  else (digitsFrom 0 true digits).map fun n => if negative then -(n : Int) else n

example : int? " 1_000\n" = some 1000 := by decide
example : int? "libvirt-qemu" = none := by decide
example : splitlines "a\r\nb\n\nc" = ["a", "b", "", "c"] := by decide

end Vnctlsd.Python.Text
