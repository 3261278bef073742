import Vnctlsd.Python.Value

/-! `fnmatch.fnmatch`: shell patterns with `*`, `?` and bracket sets, matched
against the whole name. -/
namespace Vnctlsd.Python.Fnmatch

inductive Token where
  | star
  | any
  | lit (c : Char)
  | set (negated : Bool) (ranges : List (Char × Char))
  deriving DecidableEq

def Token.accepts : Token → Char → Bool
  | .star, _ => true
  | .any, _ => true
  | .lit c, d => c == d
  | .set negated ranges, d =>
      negated != ranges.any fun range => range.1 ≤ d && d ≤ range.2

def single (c : Char) : Char × Char := (c, c)

def hyphenFrom (skip : Nat) (stuff : List Char) : Option Nat :=
  ((stuff.drop skip).findIdx? (· == '-')).map (· + skip)

/-- Cut the text of a set at the hyphens that make ranges; a trailing hyphen
stays with the last piece.  Every cut takes at least one character. -/
def chunksFrom : Nat → Nat → List Char → List (List Char)
  | 0, _, stuff => [stuff]
  | fuel + 1, skip, stuff =>
      match hyphenFrom skip stuff with
      | none => [stuff]
      | some cut =>
          match chunksFrom fuel 2 (stuff.drop (cut + 1)) with
          | [] :: [] => [stuff.take cut ++ ['-']]
          | rest => stuff.take cut :: rest

/-- Ranges that run backwards are empty and are taken out with both their ends. -/
def dropEmptyRanges : List (List Char) → List (List Char)
  | [] => []
  | chunk :: rest =>
      match dropEmptyRanges rest with
      | [] => [chunk]
      | next :: more =>
          if (chunk.getLast?.bind fun low => next.head?.map fun high => decide (high < low))
              = some true then (chunk.dropLast ++ next.tail) :: more
          else chunk :: next :: more

/-- Neighbouring pieces are joined by a range from the last character of one to
the first of the next. -/
def rangesFrom (chunk : List Char) : List (List Char) → List (Char × Char)
  | [] => chunk.map single
  | next :: rest =>
      match chunk.getLast?, next with
      | some low, high :: tail =>
          chunk.dropLast.map single ++ (low, high) :: rangesFrom tail rest
      | _, _ => chunk.map single ++ single '-' :: rangesFrom next rest

def bracketToken (stuff : List Char) : Token :=
  let chunks :=
    if stuff.contains '-' then
      dropEmptyRanges (chunksFrom stuff.length (if stuff.head? = some '!' then 2 else 1) stuff)
    else [stuff]
  match chunks with
  | [] => .set false []
  | [['!']] => .any
  | ('!' :: chunk) :: rest => .set true (rangesFrom chunk rest)
  | chunk :: rest => .set false (rangesFrom chunk rest)

/-- The text of a bracket set and what follows it; a `]` right after the opening
(or after `!`) belongs to the set. -/
def closeBracket (s : List Char) : Option (List Char × List Char) :=
  let start := match s with
    | '!' :: ']' :: _ => 2
    | '!' :: _ => 1
    | ']' :: _ => 1
    | _ => 0
  let body := (s.drop start).takeWhile (· != ']')
  match (s.drop start).dropWhile (· != ']') with
  | [] => none
  | _ :: rest => some (s.take start ++ body, rest)

def tokensFrom : Nat → List Char → List Token
  | 0, _ => []
  | _, [] => []
  | fuel + 1, c :: rest =>
      if c = '*' then .star :: tokensFrom fuel rest
      else if c = '?' then .any :: tokensFrom fuel rest
      else if c = '[' then
        match closeBracket rest with
        | none => .lit '[' :: tokensFrom fuel rest
        | some (stuff, rest) => bracketToken stuff :: tokensFrom fuel rest
      else .lit c :: tokensFrom fuel rest

def tokens (pattern : String) : List Token :=
  tokensFrom pattern.toList.length pattern.toList

def matchTokens : List Token → List Char → Bool
  | [], s => s.isEmpty
  | .star :: rest, s => s.tails.any fun suffix => matchTokens rest suffix
  | token :: rest, c :: s => token.accepts c && matchTokens rest s
  | _ :: _, [] => false

def fnmatch (name pattern : String) : Bool :=
  matchTokens (tokens pattern) name.toList

example : fnmatch "/run/vm-a.sock" "/run/vm-*.sock" = true := by decide
example : fnmatch "b" "[!a-c]" = false := by decide
example : fnmatch "]" "[]x]" = true := by decide

end Vnctlsd.Python.Fnmatch
