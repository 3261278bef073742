import Mathlib.Data.List.Basic

/-! Dynamic values as YAML, TOML and JSON deliver them, with the operations the
daemon applies to them.  An operation on a value of the wrong type raises what
the interpreter raises; nothing here silently succeeds. -/
namespace Vnctlsd.Python

inductive ExcKind where
  | keyError | indexError | valueError | attributeError | typeError
  | runtimeError | osError | eofError | structError | reError | jsonDecodeError
  deriving DecidableEq

def ExcKind.isValueError (kind : ExcKind) : Bool :=
  kind == .valueError || kind == .jsonDecodeError

/-- An exception: its class, and its text as `str(exc)` gives it. -/
structure PyExc where
  kind : ExcKind
  text : String
  deriving DecidableEq

abbrev Py (α : Type) := Except PyExc α

def raise (kind : ExcKind) (text : String) : Py α := .error ⟨kind, text⟩

theorem bind_eq_ok {first : Py α} {second : α → Py β} {value : β} :
    first >>= second = .ok value ↔ ∃ middle, first = .ok middle ∧ second middle = .ok value := by
  cases first <;> simp [bind, Except.bind]

theorem map_eq_ok {result : Py α} {f : α → β} {value : β} :
    result.map f = .ok value ↔ ∃ middle, result = .ok middle ∧ f middle = value := by
  cases result <;> simp [Except.map]

theorem mapM_returns_iff {f : α → Py β} {items : List α} :
    (∃ results, items.mapM f = .ok results) ↔ ∀ item ∈ items, ∃ result, f item = .ok result := by
  induction items with
  | nil => exact ⟨fun _ item hitem => (List.not_mem_nil hitem).elim, fun _ => ⟨[], rfl⟩⟩
  | cons item rest ih =>
      rw [List.forall_mem_cons, ← ih]
      constructor
      · rintro ⟨results, h⟩
        rw [List.mapM_cons] at h
        obtain ⟨first, hfirst, h⟩ := bind_eq_ok.mp h
        obtain ⟨others, hothers, -⟩ := bind_eq_ok.mp h
        exact ⟨⟨first, hfirst⟩, others, hothers⟩
      · rintro ⟨⟨first, hfirst⟩, others, hothers⟩
        refine ⟨first :: others, ?_⟩
        rw [List.mapM_cons, hfirst, hothers]
        rfl

theorem mem_of_mapM {f : α → Py β} {items : List α} {results : List β}
    (h : items.mapM f = .ok results) : ∀ result ∈ results, ∃ item ∈ items, f item = .ok result := by
  induction items generalizing results with
  | nil =>
      cases h
      exact fun result hresult => (List.not_mem_nil hresult).elim
  | cons item rest ih =>
      rw [List.mapM_cons] at h
      obtain ⟨first, hfirst, h⟩ := bind_eq_ok.mp h
      obtain ⟨others, hothers, h⟩ := bind_eq_ok.mp h
      cases h
      intro result hresult
      rcases List.mem_cons.mp hresult with rfl | hresult
      · exact ⟨item, List.mem_cons_self .., hfirst⟩
      · obtain ⟨origin, horigin, heq⟩ := ih hothers result hresult
        exact ⟨origin, List.mem_cons_of_mem _ horigin, heq⟩

/-- `except KeyError`: the value that stands in when a lookup misses. -/
def onKeyError (result : Py α) (fallback : α) : Py α :=
  match result with
  | .ok value => .ok value
  | .error e => if e.kind = .keyError then .ok fallback else .error e

theorem onKeyError_eq_ok {result : Py α} {fallback value : α} :
    onKeyError result fallback = .ok value ↔ result = .ok value ∨
      ∃ e, result = .error e ∧ e.kind = .keyError ∧ fallback = value := by
  cases result with
  | ok found => simp [onKeyError]
  | error e => by_cases hkind : e.kind = .keyError <;> simp [onKeyError, hkind]

/-- One position of a compiled glob template: a literal character or a named
group `(?P<name>[^/]+)`. -/
inductive Atom where
  | lit (c : Char)
  | group (name : String)
  deriving DecidableEq

/-- The dates and times that YAML and TOML have and JSON has not; `aware` is a date
and time with a zone. -/
inductive DateClass where
  | date
  | time
  | naive
  | aware
  deriving DecidableEq

def DateClass.typeName : DateClass → String
  | .date => "datetime.date"
  | .time => "datetime.time"
  | .naive | .aware => "datetime.datetime"

/-- A hashable value.  `True` and `1` are one key, so a Boolean is its number. -/
inductive Key where
  | str (s : String)
  | none
  | int (i : Int)
  | float (repr : String)
  | pattern (atoms : List Atom)
  | date (cls : DateClass) (text : String)
  deriving DecidableEq

/-- Dictionaries keep insertion order.  A float is carried as its `repr`, a date or
time as its `str`. -/
inductive PyVal where
  | none
  | bool (b : Bool)
  | int (i : Int)
  | float (repr : String)
  | str (s : String)
  | list (items : List PyVal)
  | dict (entries : List (Key × PyVal))
  | pattern (atoms : List Atom)
  | date (cls : DateClass) (text : String)

namespace PyVal

def ofFields (fields : List (String × PyVal)) : PyVal :=
  .dict (fields.map fun field => (.str field.1, field.2))

def emptyDict : PyVal := .dict []
def emptyList : PyVal := .list []

def typeName : PyVal → String
  | .none => "NoneType"
  | .bool _ => "bool"
  | .int _ => "int"
  | .float _ => "float"
  | .str _ => "str"
  | .list _ => "list"
  | .dict _ => "dict"
  | .pattern _ => "re.Pattern"
  | .date cls _ => cls.typeName

def truthy : PyVal → Bool
  | .none => false
  | .bool b => b
  | .int i => i != 0
  | .float repr => repr != "0.0" && repr != "-0.0"
  | .str s => s != ""
  | .list items => !items.isEmpty
  | .dict entries => !entries.isEmpty
  | .pattern _ | .date _ _ => true

def isNone : PyVal → Bool
  | .none => true
  | _ => false

def eqStr (value : PyVal) (text : String) : Bool :=
  match value with
  | .str s => s == text
  | _ => false

mutual

/-- `left == right`; dictionaries compare as sets of entries. -/
def eq : PyVal → PyVal → Bool
  | .none, .none => true
  | .bool a, .bool b => a == b
  | .bool a, .int j => (if a then 1 else 0) == j
  | .int i, .bool b => i == if b then 1 else 0
  | .int i, .int j => i == j
  | .float a, .float b => a == b
  | .str a, .str b => a == b
  | .pattern a, .pattern b => a == b
  | .date cls a, .date cls' b => cls == cls' && a == b
  | .list xs, .list ys => eqItems xs ys
  | .dict xs, .dict ys => xs.length == ys.length && eqEntries xs ys
  | _, _ => false

def eqItems : List PyVal → List PyVal → Bool
  | [], [] => true
  | x :: xs, y :: ys => eq x y && eqItems xs ys
  | _, _ => false

def eqEntries : List (Key × PyVal) → List (Key × PyVal) → Bool
  | [], _ => true
  | entry :: xs, ys =>
      (match ys.lookup entry.1 with
        | some other => eq entry.2 other
        | .none => false) && eqEntries xs ys

end

def orElse (left right : PyVal) : PyVal :=
  if left.truthy then left else right

def noAttribute (value : PyVal) (name : String) : Py α :=
  raise .attributeError s!"'{value.typeName}' object has no attribute '{name}'"

def get (value : PyVal) (key : String) (default : PyVal) : Py PyVal :=
  match value with
  | .dict entries => .ok ((entries.lookup (.str key)).getD default)
  | other => other.noAttribute "get"

def items (value : PyVal) : Py (List (Key × PyVal)) :=
  match value with
  | .dict entries => .ok entries
  | other => other.noAttribute "items"

def ofKey : Key → PyVal
  | .str s => .str s
  | .none => .none
  | .int i => .int i
  | .float repr => .float repr
  | .pattern atoms => .pattern atoms
  | .date cls text => .date cls text

theorem ofKey_ne_dict (key : Key) (entries : List (Key × PyVal)) : ofKey key ≠ .dict entries := by
  cases key <;> exact nofun

theorem dict_or_other (value : PyVal) :
    (∃ entries, value = .dict entries) ∨ ∀ entries, value ≠ .dict entries := by
  cases value with
  | dict entries => exact .inl ⟨entries, rfl⟩
  | none | bool | int | float | str | list | pattern | date => exact .inr fun _ => nofun

/-- `hash(value)`: the key under which a dictionary or a set files the value. -/
def toKey : PyVal → Py Key
  | .none => .ok .none
  | .bool b => .ok (.int (if b then 1 else 0))
  | .int i => .ok (.int i)
  | .float repr => .ok (.float repr)
  | .str s => .ok (.str s)
  | .pattern atoms => .ok (.pattern atoms)
  | .date cls text => .ok (.date cls text)
  | .list _ => raise .typeError "unhashable type: 'list'"
  | .dict _ => raise .typeError "unhashable type: 'dict'"

def iter : PyVal → Py (List PyVal)
  | .list items => .ok items
  | .dict entries => .ok (entries.map fun entry => ofKey entry.1)
  | .str s => .ok (s.toList.map fun c => .str (String.ofList [c]))
  | other => raise .typeError s!"'{other.typeName}' object is not iterable"

def contains (value : PyVal) (key : String) : Py Bool :=
  match value with
  | .dict entries => .ok (entries.lookup (.str key)).isSome
  | .list items => .ok (items.any fun item => item.eqStr key)
  | .str s => .ok (s.toList.tails.any fun suffix => key.toList.isPrefixOf suffix)
  | other => raise .typeError s!"argument of type '{other.typeName}' is not iterable"

def item (value : PyVal) (key : String) : Py PyVal :=
  match value with
  | .dict entries =>
      match entries.lookup (.str key) with
      | .some found => .ok found
      | .none => raise .keyError s!"'{key}'"
  | .list _ => raise .typeError "list indices must be integers or slices, not str"
  | .str _ => raise .typeError "string indices must be integers, not 'str'"
  | other => raise .typeError s!"'{other.typeName}' object is not subscriptable"

/-- `value[name]` inside a replacement field, where a decimal `name` is an index. -/
def itemAt (value : PyVal) (name : String) (index : Option Nat) : Py PyVal :=
  match value, index with
  | .str s, some i =>
      match s.toList[i]? with
      | some c => .ok (.str (String.ofList [c]))
      | .none => raise .indexError "string index out of range"
  | .list items, some i =>
      match items[i]? with
      | some found => .ok found
      | .none => raise .indexError "list index out of range"
  | .dict entries, some i =>
      match entries.lookup (.int i) with
      | some found => .ok found
      | .none => raise .keyError (toString i)
  | other, _ => other.item name

def insertKey (entries : List (Key × PyVal)) (key : Key) (value : PyVal) :
    List (Key × PyVal) :=
  match entries with
  | [] => [(key, value)]
  | entry :: rest =>
      if entry.1 = key then (key, value) :: rest
      else entry :: insertKey rest key value

theorem lookup_insertKey_self (entries : List (Key × PyVal)) (key : Key) (value : PyVal) :
    (insertKey entries key value).lookup key = some value := by
  induction entries with
  | nil => simp [insertKey]
  | cons entry rest ih =>
      unfold insertKey
      split
      · simp
      · rename_i hne
        rw [List.lookup_cons, beq_false_of_ne (Ne.symm hne)]
        exact ih

theorem lookup_insertKey_of_ne {key other : Key} (h : other ≠ key)
    (entries : List (Key × PyVal)) (value : PyVal) :
    (insertKey entries key value).lookup other = entries.lookup other := by
  induction entries with
  | nil => simp [insertKey, h]
  | cons entry rest ih =>
      obtain ⟨entryKey, entryValue⟩ := entry
      unfold insertKey
      split
      · rename_i heq
        obtain rfl : entryKey = key := heq
        simp [List.lookup_cons, beq_false_of_ne h]
      · rw [List.lookup_cons, List.lookup_cons, ih]

theorem insertKey_of_lookup {entries : List (Key × PyVal)} {key : Key} {value : PyVal}
    (h : entries.lookup key = some value) : insertKey entries key value = entries := by
  induction entries with
  | nil => cases h
  | cons entry rest ih =>
      obtain ⟨entryKey, entryValue⟩ := entry
      rw [List.lookup_cons] at h
      unfold insertKey
      split at h
      · rename_i heq
        obtain rfl : key = entryKey := eq_of_beq heq
        rw [if_pos rfl, ← Option.some.inj h]
      · rename_i hne
        have hne : key ≠ entryKey := ne_of_beq_false hne
        rw [if_neg (Ne.symm hne), ih h]

def setItem (value : PyVal) (key : String) (new : PyVal) : Py PyVal :=
  match value with
  | .dict entries => .ok (.dict (insertKey entries (.str key) new))
  | other => raise .typeError s!"'{other.typeName}' object does not support item assignment"

def kwargs (value : PyVal) : Py (List (String × PyVal)) :=
  match value with
  | .dict entries => entries.mapM fun entry =>
      match entry.1 with
      | .str s => .ok (s, entry.2)
      | _ => raise .typeError "keywords must be strings"
  | other =>
      raise .typeError s!"argument after ** must be a mapping, not {other.typeName}"

theorem kwargs_ofFields (fields : List (String × PyVal)) :
    (ofFields fields).kwargs = .ok fields := by
  unfold ofFields kwargs
  dsimp only
  induction fields with
  | nil => rfl
  | cons field rest ih =>
      rw [List.map_cons, List.mapM_cons, ih]
      rfl

theorem get_ofFields (fields : List (String × PyVal)) (key : String) (default : PyVal) :
    (ofFields fields).get key default = .ok ((fields.lookup key).getD default) := by
  have hlookup : (fields.map fun field => (Key.str field.1, field.2)).lookup (.str key) =
      fields.lookup key := by
    induction fields with
    | nil => rfl
    | cons field rest ih =>
        have hkey : ((.str key : Key) == .str field.1) = (key == field.1) := by
          rw [Bool.eq_iff_iff, beq_iff_eq, beq_iff_eq, Key.str.injEq]
        rw [List.map_cons, List.lookup_cons, List.lookup_cons, hkey, ih]
  exact congrArg (fun found : Option PyVal => Except.ok (found.getD default)) hlookup

theorem kwargs_error {value : PyVal} {e : PyExc} (h : value.kwargs = .error e) :
    e.kind = .typeError := by
  cases value with
  | dict entries =>
      simp only [kwargs] at h
      induction entries with
      | nil => cases h
      | cons entry rest ih =>
          rw [List.mapM_cons] at h
          cases hkey : entry.1 with
          | str s =>
              rw [hkey] at h
              cases hrest : rest.mapM fun entry : Key × PyVal => match entry.1 with
                | .str s => (.ok (s, entry.2) : Py (String × PyVal))
                | _ => raise .typeError "keywords must be strings" with
              | error e' =>
                  rw [hrest] at h
                  cases h
                  exact ih hrest
              | ok fields =>
                  rw [hrest] at h
                  cases h
          | none | int | float | pattern | date =>
              rw [hkey] at h
              cases h
              rfl
  | none | bool | int | float | str | list | pattern | date =>
      cases h
      rfl

@[simp] theorem get_dict (entries : List (Key × PyVal)) (key : String) (default : PyVal) :
    (PyVal.dict entries).get key default = .ok ((entries.lookup (.str key)).getD default) := rfl

@[simp] theorem isNone_none : PyVal.none.isNone = true := rfl

theorem isNone_eq_true_iff (value : PyVal) : value.isNone = true ↔ value = .none := by
  cases value <;> simp [isNone]

@[simp] theorem orElse_dict (entries : List (Key × PyVal)) :
    (PyVal.dict entries).orElse emptyDict = .dict entries := by
  cases entries <;> rfl

theorem eq_dict_of_get_ok {value default found : PyVal} {key : String}
    (h : value.get key default = .ok found) : ∃ entries, value = .dict entries := by
  cases value with
  | dict entries => exact ⟨entries, rfl⟩
  | none | bool | int | float | str | list | pattern | date => cases h

end PyVal

/-- What the model leaves to the interpreter: the Unicode identifier table,
`repr`, attribute access and format specifications inside a replacement field,
JSON text, and regular expressions written by the administrator.  The results
hold for every choice of these. -/
structure Runtime where
  isIdentifier : String → Bool
  repr : PyVal → String
  ascii : PyVal → String
  getAttr : PyVal → String → Py PyVal
  formatSpec : PyVal → String → Py String
  jsonLoads : String → Py PyVal
  reSearch : PyVal → String → Py Bool

def Runtime.str (rt : Runtime) (value : PyVal) : String :=
  match value with
  | .str s => s
  | .none => "None"
  | .bool b => if b then "True" else "False"
  | .int i => toString i
  | .float repr => repr
  | .date _ text => text
  | other => rt.repr other

/-- The interpreter's answers on plain input: ASCII identifiers, strings
without quotes or control characters, no attributes and no JSON. -/
def Runtime.plain : Runtime where
  isIdentifier s := match s.toList with
    | [] => false
    | c :: rest => (c == '_' || c.isAlpha) && rest.all fun d => d == '_' || d.isAlphanum
  repr value := match value with
    | .str s => s!"'{s}'"
    | other => other.typeName
  ascii value := match value with
    | .str s => s!"'{s}'"
    | other => other.typeName
  getAttr value name := value.noAttribute name
  formatSpec value _ := match value with
    | .str s => .ok s
    | _ => raise .typeError "unsupported format string"
  jsonLoads _ := raise .jsonDecodeError "Expecting value: line 1 column 1 (char 0)"
  reSearch _ _ := .ok false

end Vnctlsd.Python
