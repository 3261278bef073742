import Vnctlsd.Python.Format

/-! From a command's raw output to the text the client sees: parse it, apply the
filter of the command's definition, render the result for a terminal. -/
namespace Vnctlsd.Output
open Vnctlsd.Python

def esc : Char := '\x1b'

def inRange (first last c : Char) : Bool := first.toNat ≤ c.toNat && c.toNat ≤ last.toNat

/-- `[@-Z\\-_]`: the second character of a two-character sequence. -/
def isEscFinal (c : Char) : Bool := inRange '@' 'Z' c || inRange '\\' '_' c

def csiRest (s : List Char) : Option (List Char) :=
  match (s.dropWhile (inRange '0' '?')).dropWhile (inRange ' ' '/') with
  | c :: rest => if inRange '@' '~' c then some rest else none
  | [] => none

def escapeRest : List Char → Option (List Char)
  | '[' :: rest => csiRest rest
  | c :: rest => if isEscFinal c then some rest else none
  | [] => none

/-- One pass from left to right; every step takes at least one character. -/
def stripFrom : Nat → List Char → List Char
  | _, [] => []
  | 0, _ => []
  | fuel + 1, c :: rest =>
      if c = esc then
        match escapeRest rest with
        | some rest => stripFrom fuel rest
        | none => c :: stripFrom fuel rest
      else c :: stripFrom fuel rest

def stripAnsi (text : String) : String :=
  String.ofList (stripFrom text.toList.length text.toList)

example : stripAnsi "\x1b[1;31mred\x1b[0m \x1bM\x1b[x" = "red " := by decide

/-- `fmt.lower()`, as far as a comparison with ASCII text can tell. -/
def lower (fmt : PyVal) : Py String :=
  match fmt with
  | .str s => .ok (String.ofList (s.toList.map fun c =>
      if inRange 'A' 'Z' c then Char.ofNat (c.toNat + 32) else c))
  | other => other.noAttribute "lower"

def onJsonError (result : Py PyVal) : Py PyVal :=
  match result with
  | .ok value => .ok value
  | .error e =>
      let text := e.text
      if e.kind = .jsonDecodeError then
        raise .valueError s!"Command output is not valid JSON: {text}"
      else .error e

def parseOutput (rt : Runtime) (raw : String) (fmt : PyVal) : Py PyVal := do
  let fmt ← if fmt.truthy then lower fmt else pure "raw"
  if fmt = "json" then onJsonError (rt.jsonLoads raw)
  else if fmt = "lines" then
    pure (.list (((Text.splitlines raw).filter fun l => Text.strip l != "").map .str))
  else pure (.str raw)

inductive Normalized where
  | string (value : String)
  | list (items : List String)
  | table (rows : List (String × String))
  | status (ok : Bool) (message : String)
  deriving DecidableEq

/-- `{**parsed, 'output': raw.strip()}`, as far as a template can read it. -/
def outputFields (entries : List (Key × PyVal)) (raw : String) : List (String × PyVal) :=
  ("output", .str (Text.strip raw)) :: entries.filterMap fun entry =>
    match entry.1 with
    | .str s => some (s, entry.2)
    | _ => none

/-- A template over the parsed output: the fields of an object, or `plain` as
the one field `output`.  Only an object with a missing field has a fallback. -/
def fillTemplate (rt : Runtime) (parsed tmpl : PyVal) (raw fallback plain : String) :
    Py String :=
  match parsed with
  | .dict entries =>
      onKeyError (Format.formatMap rt tmpl (outputFields entries raw)) fallback
  | _ => Format.format rt tmpl [("output", .str plain)]

def listItems (rt : Runtime) (parsed itemsExpr : PyVal) : Py (List String) :=
  match parsed with
  | .list els =>
      if itemsExpr.truthy then
        match itemsExpr with
        | .str expr =>
            let field := Text.strip (Text.lstripChars ['[', ']', '.'] expr)
            if field = "" then .ok (els.map rt.str)
            else .ok (els.filterMap fun el => match el with
              | .dict entries => some (rt.str ((entries.lookup (.str field)).getD (.str "")))
              | _ => none)
        | other => other.noAttribute "lstrip"
      else .ok (els.map rt.str)
  | other => .ok [rt.str other]

def tableRow (rt : Runtime) (parsed : PyVal) (raw : String) (row : PyVal) :
    Py (Option (String × String)) :=
  match row with
  | .list [label, expr] => do
      let value ← fillTemplate rt parsed (.str (rt.str expr)) raw "?"
        (Text.strip (rt.str parsed))
      pure (some (rt.str label, value))
  | _ => pure none

def statusOk (rt : Runtime) (okPattern : PyVal) (raw : String) : Py Bool :=
  if okPattern.truthy then rt.reSearch okPattern raw else pure true

def runFilter (rt : Runtime) (raw : String) (parsed filterDef : PyVal) : Py Normalized := do
  let outType ← filterDef.get "type" (.str "string")
  if outType.eqStr "string" then
    let tmpl ← filterDef.get "value" (.str "\x7boutput\x7d")
    let value ← fillTemplate rt parsed tmpl raw (Text.strip raw) (Text.strip (rt.str parsed))
    pure (.string value)
  else if outType.eqStr "list" then
    let items ← listItems rt parsed (← filterDef.get "items" (.str ""))
    pure (.list (items.filter (· != "")))
  else if outType.eqStr "table" then
    let rowDefs ← (← filterDef.get "rows" .emptyList).iter
    let rows ← rowDefs.mapM (tableRow rt parsed raw)
    pure (.table (rows.filterMap id))
  else if outType.eqStr "status" then
    let ok ← statusOk rt (← filterDef.get "ok_if" (.str "")) raw
    let tmpl ← filterDef.get "message" (.str "\x7boutput\x7d")
    let message ← fillTemplate rt parsed tmpl raw (Text.strip raw) (Text.strip raw)
    pure (.status ok message)
  else pure (.string (Text.strip (rt.str parsed)))

def wrapOutput (rt : Runtime) (fmt parsed : PyVal) : Normalized :=
  match fmt.eqStr "lines", parsed with
  | true, .list els => .list (els.map rt.str)
  | _, parsed => .string (Text.strip (rt.str parsed))

def applyFilter (rt : Runtime) (raw : String) (fmt filterDef : PyVal) : Py Normalized :=
  match parseOutput rt raw fmt with
  | .error e =>
      let text := e.text
      if e.kind.isValueError then .ok (.string s!"[parse error: {text}]\n{raw}")
      else .error e
  | .ok parsed =>
      if filterDef.truthy then runFilter rt raw parsed filterDef
      else .ok (wrapOutput rt fmt parsed)

def padRight (width : Nat) (text : String) : String :=
  text ++ String.ofList (List.replicate (width - text.length) ' ')

/-- The width of the label column counts the labels as they are configured. -/
def labelWidth (rows : List (String × String)) : Nat :=
  (rows.map fun row => row.1.length).foldl max 0

def renderNormalized : Normalized → String
  | .string value => Text.rstrip (stripAnsi value) ++ "\r\n"
  | .list [] => "(empty)\r\n"
  | .list items => String.join (items.map fun item => "  " ++ stripAnsi item ++ "\r\n")
  | .table [] => "(empty)\r\n"
  | .table rows => String.join (rows.map fun row =>
      "  " ++ padRight (labelWidth rows) (stripAnsi row.1) ++ "  " ++ stripAnsi row.2 ++ "\r\n")
  | .status ok message => (if ok then "✓" else "✗") ++ " " ++ stripAnsi message ++ "\r\n"

example : (applyFilter .plain "Domain is running" (.str "raw")
    (.ofFields [("type", .str "status"), ("message", .str "\x7boutput\x7d")])).map
      renderNormalized = .ok "✓ Domain is running\r\n" := by decide
example : renderNormalized (.table [("State", "running"), ("VCPUs", "2")]) =
    "  State  running\r\n  VCPUs  2\r\n" := by decide

end Vnctlsd.Output
