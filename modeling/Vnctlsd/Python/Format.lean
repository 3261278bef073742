import Mathlib.Data.List.TakeWhile
import Vnctlsd.Python.Text

/-! `str.format` and `str.format_map`.  The markup iterator reads one literal and
at most one replacement field at a time, and a field is evaluated before the
text behind it is read, so the first defect from the left decides which
exception is raised. -/
namespace Vnctlsd.Python.Format

structure Field where
  name : List Char
  conversion : Option Char
  spec : List Char
  expand : Bool
  deriving DecidableEq

inductive Terminator where
  | close
  | colon
  | bang
  deriving DecidableEq

def scanName (name : List Char) (bracket : Bool) :
    List Char → Py (List Char × Terminator × List Char)
  | [] => raise .valueError "expected '\x7d' before end of string"
  | c :: rest =>
      if bracket then scanName (c :: name) (c != ']') rest
      else if c = '{' then raise .valueError "unexpected '\x7b' in field name"
      else if c = '}' then .ok (name.reverse, .close, rest)
      else if c = ':' then .ok (name.reverse, .colon, rest)
      else if c = '!' then .ok (name.reverse, .bang, rest)
      else scanName (c :: name) (c == '[') rest

/-- Read a format specification; `depth` braces are open besides the field's own. -/
def scanSpec (spec : List Char) (depth : Nat) (expand : Bool) :
    List Char → Py (List Char × Bool × List Char)
  | [] => raise .valueError "unmatched '\x7b' in format spec"
  | c :: rest =>
      if c = '{' then scanSpec (c :: spec) (depth + 1) true rest
      else if c = '}' then
        match depth with
        | 0 => .ok (spec.reverse, expand, rest)
        | depth + 1 => scanSpec (c :: spec) depth expand rest
      else scanSpec (c :: spec) depth expand rest

def specField (name : List Char) (conversion : Option Char) (s : List Char) :
    Py (Field × List Char) := do
  let (spec, expand, rest) ← scanSpec [] 0 false s
  pure (⟨name, conversion, spec, expand⟩, rest)

def parseField (s : List Char) : Py (Field × List Char) := do
  let (name, terminator, rest) ← scanName [] false s
  match terminator, rest with
  | .close, rest => pure (⟨name, none, [], false⟩, rest)
  | .colon, rest => specField name none rest
  | .bang, [] => raise .valueError "end of string while looking for conversion specifier"
  | .bang, [conversion] => specField name (some conversion) []
  | .bang, conversion :: c :: rest =>
      if c = '}' then pure (⟨name, some conversion, [], false⟩, rest)
      else if c = ':' then specField name (some conversion) rest
      else raise .valueError "expected ':' after conversion specifier"

def isBrace (c : Char) : Bool := c == '{' || c == '}'

/-- One turn of the markup iterator: literal text, the field behind it if there
is one, and the text that is left. -/
def nextMarkup (s : List Char) : Py (List Char × Option Field × List Char) :=
  let literal := s.takeWhile fun c => !isBrace c
  match s.dropWhile fun c => !isBrace c with
  | [] => .ok (literal, none, [])
  | '}' :: '}' :: rest => .ok (literal ++ ['}'], none, rest)
  | '{' :: '{' :: rest => .ok (literal ++ ['{'], none, rest)
  | '}' :: _ => raise .valueError "Single '\x7d' encountered in format string"
  | ['{'] => raise .valueError "Single '\x7b' encountered in format string"
  | _ :: rest => do
      let (field, rest) ← parseField rest
      pure (literal, some field, rest)

def index? (name : List Char) : Py (Option Nat) :=
  match name.mapM Text.decimal? with
  | none => .ok none
  | some [] => .ok none
  | some digits =>
      let n := digits.foldl (fun n d => 10 * n + d) 0
      if n < 0x8000000000000000 then .ok (some n)
      else raise .valueError "Too many decimal digits in format string"

/-- The arguments of the call: `format` has an empty tuple of positional
arguments, `format_map` has none at all. -/
structure Args where
  mapping : Bool
  fields : List (String × PyVal)

def Args.positional (args : Args) (index : Nat) : Py PyVal :=
  if args.mapping then raise .valueError "Format string contains positional fields"
  else raise .indexError s!"Replacement index {index} out of range for positional args tuple"

def Args.named (rt : Runtime) (args : Args) (name : String) : Py PyVal :=
  match args.fields.lookup name with
  | some value => .ok value
  | none => raise .keyError (rt.repr (.str name))

/-- Follow the accessors `.attr` and `[item]` of a field name; every one of them
takes at least one character, so the fuel is the length of the text. -/
def follow (rt : Runtime) (value : PyVal) : Nat → List Char → Py PyVal
  | _, [] => .ok value
  | 0, _ => .ok value
  | fuel + 1, '.' :: rest =>
      let name := rest.takeWhile fun c => c != '.' && c != '['
      if name.isEmpty then raise .valueError "Empty attribute in format string"
      else do
        let next ← rt.getAttr value (String.ofList name)
        follow rt next fuel (rest.drop name.length)
  | fuel + 1, '[' :: rest =>
      let name := rest.takeWhile (· != ']')
      if rest.length = name.length then raise .valueError "Missing ']' in format string"
      else if name.isEmpty then raise .valueError "Empty attribute in format string"
      else do
        let index ← index? name
        let next ← value.itemAt (String.ofList name) index
        follow rt next fuel (rest.drop (name.length + 1))
  | _ + 1, _ :: _ =>
      raise .valueError "Only '.' or '[' may follow ']' in format field specifier"

def isAccessor (c : Char) : Bool := c == '.' || c == '['

def fieldObject (rt : Runtime) (args : Args) (name : List Char) : Py PyVal := do
  let first := name.takeWhile fun c => !isAccessor c
  let rest := name.dropWhile fun c => !isAccessor c
  let index ← index? first
  let value ← match index with
    | some i => args.positional i
    | none =>
        if first.isEmpty then args.positional 0
        else args.named rt (String.ofList first)
  follow rt value rest.length rest

def convert (rt : Runtime) (value : PyVal) : Option Char → Py PyVal
  | none => .ok value
  | some 'r' => .ok (.str (rt.repr value))
  | some 's' => .ok (.str (rt.str value))
  | some 'a' => .ok (.str (rt.ascii value))
  | some c => raise .valueError s!"Unknown conversion specifier {c}"

def formatValue (rt : Runtime) (value : PyVal) (spec : List Char) : Py (List Char) :=
  if spec.isEmpty then .ok (rt.str value).toList
  else (rt.formatSpec value (String.ofList spec)).map String.toList

def renderField (rt : Runtime) (args : Args) (expandSpec : List Char → Py (List Char))
    (field : Field) : Py (List Char) := do
  let value ← fieldObject rt args field.name
  let value ← convert rt value field.conversion
  let spec ← if field.expand then expandSpec field.spec else pure field.spec
  formatValue rt value spec

def renderAll (rt : Runtime) (args : Args) (expandSpec : List Char → Py (List Char)) :
    Nat → List Char → Py (List Char)
  | _, [] => .ok []
  | 0, _ => .ok []
  | fuel + 1, s => do
      let (literal, field, rest) ← nextMarkup s
      let text ← match field with
        | none => pure []
        | some field => renderField rt args expandSpec field
      let tail ← renderAll rt args expandSpec fuel rest
      pure (literal ++ text ++ tail)

/-- Fields may nest once more inside a format specification. -/
def render (rt : Runtime) (args : Args) : Nat → List Char → Py (List Char)
  | 0, _ => raise .valueError "Max string recursion exceeded"
  | depth + 1, s => renderAll rt args (render rt args depth) s.length s

def recursionDepth : Nat := 2

def format (rt : Runtime) (template : PyVal) (fields : List (String × PyVal)) : Py String :=
  match template with
  | .str s => (render rt ⟨false, fields⟩ recursionDepth s.toList).map String.ofList
  | other => other.noAttribute "format"

/-- `template.format(**mapping)`: the attribute is looked up before the mapping
is unpacked. -/
def formatStar (rt : Runtime) (template mapping : PyVal) : Py String :=
  match template with
  | .str _ => do
      let fields ← mapping.kwargs
      format rt template fields
  | other => other.noAttribute "format"

def formatMap (rt : Runtime) (template : PyVal) (fields : List (String × PyVal)) : Py String :=
  match template with
  | .str s => (render rt ⟨true, fields⟩ recursionDepth s.toList).map String.ofList
  | other => other.noAttribute "format_map"

theorem renderAll_literal (rt : Runtime) (args : Args)
    (expandSpec : List Char → Py (List Char)) (fuel : Nat) (s : List Char)
    (hfuel : s.length ≤ fuel) (hplain : ∀ c ∈ s, isBrace c = false) :
    renderAll rt args expandSpec fuel s = .ok s := by
  cases s with
  | nil => cases fuel <;> rfl
  | cons c rest =>
      cases fuel with
      | zero => simp at hfuel
      | succ fuel =>
          have htake : ((c :: rest).takeWhile fun d => !isBrace d) = c :: rest := by
            rw [List.takeWhile_eq_self_iff]
            intro d hd
            simp [hplain d hd]
          have hdrop : ((c :: rest).dropWhile fun d => !isBrace d) = [] := by
            rw [List.dropWhile_eq_nil_iff]
            intro d hd
            simp [hplain d hd]
          have hnext : nextMarkup (c :: rest) = .ok (c :: rest, none, []) := by
            simp only [nextMarkup, htake, hdrop]
          simp only [renderAll, hnext]
          cases fuel <;> simp [renderAll, bind, Except.bind, pure, Except.pure]

theorem format_literal (rt : Runtime) (s : String) (fields : List (String × PyVal))
    (hplain : ∀ c ∈ s.toList, isBrace c = false) :
    format rt (.str s) fields = .ok s := by
  unfold format recursionDepth render
  simp only
  rw [renderAll_literal rt _ _ _ _ (Nat.le_refl _) hplain]
  simp [Except.map]

/-- The argument a field name starts from. -/
def firstObject (rt : Runtime) (args : Args) (first : List Char) : Option Nat → Py PyVal
  | some i => args.positional i
  | none => if first.isEmpty then args.positional 0 else args.named rt (String.ofList first)

theorem fieldObject_eq (rt : Runtime) (args : Args) (name : List Char) :
    fieldObject rt args name =
      (index? (name.takeWhile fun c => !isAccessor c)) >>= fun index =>
        (firstObject rt args (name.takeWhile fun c => !isAccessor c) index) >>= fun value =>
          follow rt value (name.dropWhile fun c => !isAccessor c).length
            (name.dropWhile fun c => !isAccessor c) := by
  unfold fieldObject
  dsimp only
  cases index? (name.takeWhile fun c => !isAccessor c) with
  | error e => rfl
  | ok index =>
      cases index with
      | some i => rfl
      | none =>
          dsimp only [bind, Except.bind, firstObject]
          cases (name.takeWhile fun c => !isAccessor c).isEmpty <;> rfl

def fieldText (rt : Runtime) (args : Args) (expandSpec : List Char → Py (List Char)) :
    Option Field → Py (List Char)
  | none => .ok []
  | some field => renderField rt args expandSpec field

theorem renderAll_succ (rt : Runtime) (args : Args) (expandSpec : List Char → Py (List Char))
    (fuel : Nat) {s : List Char} (hs : s ≠ []) :
    renderAll rt args expandSpec (fuel + 1) s =
      nextMarkup s >>= fun markup => fieldText rt args expandSpec markup.2.1 >>= fun text =>
        renderAll rt args expandSpec fuel markup.2.2 >>= fun tail =>
          .ok (markup.1 ++ text ++ tail) := by
  cases s with
  | nil => exact absurd rfl hs
  | cons c rest =>
      simp only [renderAll]
      cases nextMarkup (c :: rest) with
      | error e => rfl
      | ok markup =>
          obtain ⟨literal, field, tail⟩ := markup
          cases field <;> rfl

theorem firstObject_noArgs (rt : Runtime) (mapping : Bool) (first : List Char)
    (index : Option Nat) : ∃ e, firstObject rt ⟨mapping, []⟩ first index = .error e := by
  have hpositional (i : Nat) : ∃ e, Args.positional ⟨mapping, []⟩ i = .error e := by
    cases mapping <;> exact ⟨_, rfl⟩
  cases index with
  | some i => exact hpositional i
  | none =>
      unfold firstObject
      cases first.isEmpty with
      | true => exact hpositional 0
      | false => exact ⟨_, rfl⟩

theorem renderField_noArgs {rt : Runtime} {mapping : Bool}
    {expandSpec : List Char → Py (List Char)} {field : Field} {text : List Char} :
    renderField rt ⟨mapping, []⟩ expandSpec field ≠ .ok text := by
  intro h
  obtain ⟨value, hvalue, -⟩ := bind_eq_ok.mp h
  rw [fieldObject_eq] at hvalue
  obtain ⟨index, -, hvalue⟩ := bind_eq_ok.mp hvalue
  obtain ⟨object, hobject, -⟩ := bind_eq_ok.mp hvalue
  obtain ⟨e, he⟩ := firstObject_noArgs rt mapping _ index
  rw [he] at hobject
  cases hobject

theorem nextMarkup_ne_nil {s rest : List Char} (h : nextMarkup s = .ok ([], none, rest)) :
    s = [] := by
  have hsplit := List.takeWhile_append_dropWhile (p := fun c => !isBrace c) (l := s)
  unfold nextMarkup at h
  dsimp only at h
  split at h
  · rename_i hdrop
    rw [← hsplit, hdrop, (Prod.mk.inj (Except.ok.inj h)).1]
    rfl
  · simp at h
  · simp at h
  · simp [raise] at h
  · simp [raise] at h
  · obtain ⟨field, -, h⟩ := bind_eq_ok.mp h
    simp [pure, Except.pure] at h

/-- Without arguments every field raises, so what is rendered is literal text, and
only the empty template renders to nothing. -/
theorem renderAll_noArgs_eq_nil {rt : Runtime} {mapping : Bool}
    {expandSpec : List Char → Py (List Char)} {fuel : Nat} {s : List Char}
    (hfuel : s.length ≤ fuel) (h : renderAll rt ⟨mapping, []⟩ expandSpec fuel s = .ok []) :
    s = [] := by
  by_contra hs
  cases fuel with
  | zero => exact hs (List.eq_nil_of_length_eq_zero (Nat.le_zero.mp hfuel))
  | succ fuel =>
      rw [renderAll_succ rt _ expandSpec fuel hs] at h
      obtain ⟨⟨literal, field, rest⟩, hnext, h⟩ := bind_eq_ok.mp h
      obtain ⟨text, htext, h⟩ := bind_eq_ok.mp h
      obtain ⟨others, hothers, h⟩ := bind_eq_ok.mp h
      cases field with
      | some field => exact renderField_noArgs htext
      | none =>
          have hnil : literal ++ text ++ others = [] := Except.ok.inj h
          obtain ⟨hliteral, -⟩ := List.append_eq_nil_iff.mp hnil
          obtain ⟨rfl, -⟩ := List.append_eq_nil_iff.mp hliteral
          exact hs (nextMarkup_ne_nil hnext)

theorem formatStar_noArgs_eq_empty {rt : Runtime} {s : String}
    (h : formatStar rt (.str s) .emptyDict = .ok "") : s = "" := by
  have hformat : format rt (.str s) [] = .ok "" := h
  unfold format recursionDepth render at hformat
  obtain ⟨text, htext, hempty⟩ := map_eq_ok.mp hformat
  have hnil : text = [] := String.ofList_eq_empty_iff.mp hempty
  rw [hnil] at htext
  have hs : s.toList = [] := renderAll_noArgs_eq_nil (Nat.le_refl _) htext
  exact String.toList_eq_nil_iff.mp hs

theorem nextMarkup_cons (s : List Char) {c : Char} (hc : isBrace c = false) :
    nextMarkup (c :: s) = (nextMarkup s).map fun markup => (c :: markup.1, markup.2) := by
  have htake : ((c :: s).takeWhile fun d => !isBrace d) = c :: s.takeWhile fun d => !isBrace d := by
    simp [hc]
  have hdrop : ((c :: s).dropWhile fun d => !isBrace d) = s.dropWhile fun d => !isBrace d := by
    simp [hc]
  unfold nextMarkup
  rw [htake, hdrop]
  dsimp only
  split
  · rfl
  · rfl
  · rfl
  · rfl
  · rfl
  · rename_i tail _ _ _ _ _
    cases parseField tail <;> rfl

theorem renderAll_cons (rt : Runtime) (args : Args) (expandSpec : List Char → Py (List Char))
    (fuel : Nat) (s : List Char) {c : Char} (hc : isBrace c = false) :
    renderAll rt args expandSpec (fuel + 1) (c :: s) =
      (renderAll rt args expandSpec (fuel + 1) s).map (c :: ·) := by
  rw [renderAll_succ rt args expandSpec fuel (List.cons_ne_nil c s), nextMarkup_cons s hc]
  by_cases hs : s = []
  · subst hs
    cases fuel <;> rfl
  · rw [renderAll_succ rt args expandSpec fuel hs]
    cases nextMarkup s with
    | error e => rfl
    | ok markup =>
        simp only [Except.map, bind, Except.bind]
        cases fieldText rt args expandSpec markup.2.1 with
        | error e => rfl
        | ok text =>
            simp only
            cases renderAll rt args expandSpec fuel markup.2.2 <;> rfl

theorem renderAll_openBrace (rt : Runtime) (args : Args)
    (expandSpec : List Char → Py (List Char)) (fuel : Nat) (s : List Char) :
    renderAll rt args expandSpec (fuel + 1) ('{' :: '{' :: s) =
      (renderAll rt args expandSpec fuel s).map ('{' :: ·) := by
  rw [renderAll_succ rt args expandSpec fuel (List.cons_ne_nil _ _)]
  have hnext : nextMarkup ('{' :: '{' :: s) = .ok (['{'], none, s) := rfl
  rw [hnext]
  simp only [bind, Except.bind, fieldText]
  cases renderAll rt args expandSpec fuel s <;> rfl

theorem renderAll_closeBrace (rt : Runtime) (args : Args)
    (expandSpec : List Char → Py (List Char)) (fuel : Nat) (s : List Char) :
    renderAll rt args expandSpec (fuel + 1) ('}' :: '}' :: s) =
      (renderAll rt args expandSpec fuel s).map ('}' :: ·) := by
  rw [renderAll_succ rt args expandSpec fuel (List.cons_ne_nil _ _)]
  have hnext : nextMarkup ('}' :: '}' :: s) = .ok (['}'], none, s) := rfl
  rw [hnext]
  simp only [bind, Except.bind, fieldText]
  cases renderAll rt args expandSpec fuel s <;> rfl

/-- The arguments of one call are among those of another. -/
structure Args.Extends (small large : Args) : Prop where
  mapping : small.mapping = large.mapping
  fields : ∀ name value, small.fields.lookup name = some value →
    large.fields.lookup name = some value

section

variable {rt : Runtime} {small large : Args}

theorem positional_ne_ok (args : Args) (index : Nat) {value : PyVal} :
    args.positional index ≠ .ok value := by
  unfold Args.positional
  split <;> exact nofun

theorem named_extends (h : small.Extends large) {name : String} {value : PyVal}
    (hvalue : small.named rt name = .ok value) : large.named rt name = .ok value := by
  unfold Args.named at hvalue ⊢
  cases hlookup : small.fields.lookup name with
  | none =>
      rw [hlookup] at hvalue
      cases hvalue
  | some found =>
      rw [hlookup] at hvalue
      cases hvalue
      rw [h.fields name value hlookup]

theorem firstObject_extends (h : small.Extends large) {first : List Char} {index : Option Nat}
    {value : PyVal} (hvalue : firstObject rt small first index = .ok value) :
    firstObject rt large first index = .ok value := by
  cases index with
  | some i => exact absurd hvalue (positional_ne_ok small i)
  | none =>
      unfold firstObject at hvalue ⊢
      cases hempty : first.isEmpty with
      | true =>
          rw [hempty] at hvalue
          exact absurd hvalue (positional_ne_ok small 0)
      | false =>
          rw [hempty] at hvalue
          exact named_extends h hvalue

theorem renderField_extends (h : small.Extends large)
    {expandSmall expandLarge : List Char → Py (List Char)}
    (hexpand : ∀ spec text, expandSmall spec = .ok text → expandLarge spec = .ok text)
    {field : Field} {text : List Char}
    (htext : renderField rt small expandSmall field = .ok text) :
    renderField rt large expandLarge field = .ok text := by
  obtain ⟨object, hobject, htext⟩ := bind_eq_ok.mp htext
  obtain ⟨value, hvalue, htext⟩ := bind_eq_ok.mp htext
  rw [fieldObject_eq] at hobject
  obtain ⟨index, hindex, hobject⟩ := bind_eq_ok.mp hobject
  obtain ⟨first, hfirst, hobject⟩ := bind_eq_ok.mp hobject
  refine bind_eq_ok.mpr ⟨object, ?_, bind_eq_ok.mpr ⟨value, hvalue, ?_⟩⟩
  · rw [fieldObject_eq]
    exact bind_eq_ok.mpr ⟨index, hindex,
      bind_eq_ok.mpr ⟨first, firstObject_extends h hfirst, hobject⟩⟩
  · cases hnested : field.expand with
    | false =>
        rw [hnested] at htext
        exact htext
    | true =>
        rw [hnested] at htext
        obtain ⟨spec, hspec, htext⟩ := bind_eq_ok.mp htext
        exact bind_eq_ok.mpr ⟨spec, hexpand _ _ hspec, htext⟩

theorem renderAll_extends (h : small.Extends large)
    {expandSmall expandLarge : List Char → Py (List Char)}
    (hexpand : ∀ spec text, expandSmall spec = .ok text → expandLarge spec = .ok text)
    {fuel : Nat} {s text : List Char} (htext : renderAll rt small expandSmall fuel s = .ok text) :
    renderAll rt large expandLarge fuel s = .ok text := by
  induction fuel generalizing s text with
  | zero => cases s <;> exact htext
  | succ fuel ih =>
      by_cases hs : s = []
      · subst hs
        exact htext
      · rw [renderAll_succ rt _ _ fuel hs] at htext ⊢
        obtain ⟨markup, hmarkup, htext⟩ := bind_eq_ok.mp htext
        obtain ⟨body, hbody, htext⟩ := bind_eq_ok.mp htext
        obtain ⟨tail, htail, htext⟩ := bind_eq_ok.mp htext
        refine bind_eq_ok.mpr ⟨markup, hmarkup, bind_eq_ok.mpr ⟨body, ?_,
          bind_eq_ok.mpr ⟨tail, ih htail, htext⟩⟩⟩
        cases hfield : markup.2.1 with
        | none =>
            rw [hfield] at hbody
            exact hbody
        | some field =>
            rw [hfield] at hbody
            exact renderField_extends h hexpand hbody

theorem render_extends (h : small.Extends large) {depth : Nat} {s text : List Char}
    (htext : render rt small depth s = .ok text) : render rt large depth s = .ok text := by
  induction depth generalizing s text with
  | zero => cases htext
  | succ depth ih => exact renderAll_extends h (fun _ _ hspec => ih hspec) htext

end

/-- Further fields do not change what is rendered. -/
theorem format_extends {rt : Runtime} {template : PyVal} {small large : List (String × PyVal)}
    (h : ∀ name value, small.lookup name = some value → large.lookup name = some value)
    {text : String} (htext : format rt template small = .ok text) :
    format rt template large = .ok text := by
  cases template with
  | str s =>
      obtain ⟨chars, hchars, rfl⟩ := map_eq_ok.mp htext
      have hextends : Args.Extends ⟨false, small⟩ ⟨false, large⟩ := ⟨rfl, h⟩
      exact map_eq_ok.mpr ⟨chars, render_extends hextends hchars, rfl⟩
  | none | bool | int | float | list | dict | pattern | date => cases htext

theorem scanName_unclosed {s : List Char} (h : ∀ c ∈ s, c ≠ '}') (name : List Char)
    (bracket : Bool) :
    (∃ e, scanName name bracket s = .error e ∧ e.kind = .valueError) ∨
      ∃ scanned terminator rest, scanName name bracket s = .ok (scanned, terminator, rest) ∧
        terminator ≠ .close ∧ ∀ c ∈ rest, c ≠ '}' := by
  induction s generalizing name bracket with
  | nil => exact .inl ⟨_, rfl, rfl⟩
  | cons c s ih =>
      obtain ⟨hc, hs⟩ := List.forall_mem_cons.mp h
      rw [scanName]
      cases bracket with
      | true => exact ih hs _ _
      | false =>
          rw [if_neg Bool.false_ne_true, if_neg hc]
          split
          · exact .inl ⟨_, rfl, rfl⟩
          · split
            · exact .inr ⟨_, _, _, rfl, nofun, hs⟩
            · split
              · exact .inr ⟨_, _, _, rfl, nofun, hs⟩
              · exact ih hs _ _

theorem specField_unclosed {s : List Char} (h : ∀ c ∈ s, c ≠ '}') (name : List Char)
    (conversion : Option Char) :
    ∃ e, specField name conversion s = .error e ∧ e.kind = .valueError := by
  have hspec (spec : List Char) (depth : Nat) (expand : Bool) :
      ∃ e, scanSpec spec depth expand s = .error e ∧ e.kind = .valueError := by
    induction s generalizing spec depth expand with
    | nil => exact ⟨_, rfl, rfl⟩
    | cons c s ih =>
        obtain ⟨hc, hs⟩ := List.forall_mem_cons.mp h
        simp only [scanSpec, hc, if_false]
        split
        · exact ih hs _ _ _
        · exact ih hs _ _ _
  obtain ⟨e, hscan, hkind⟩ := hspec [] 0 false
  exact ⟨e, by rw [specField, hscan]; rfl, hkind⟩

/-- A field that is never closed is refused. -/
theorem parseField_unclosed {s : List Char} (h : ∀ c ∈ s, c ≠ '}') :
    ∃ e, parseField s = .error e ∧ e.kind = .valueError := by
  unfold parseField
  rcases scanName_unclosed h [] false with
    ⟨e, hscan, hkind⟩ | ⟨name, terminator, rest, hscan, hclose, hrest⟩
  · exact ⟨e, by rw [hscan]; rfl, hkind⟩
  · rw [hscan]
    simp only [bind, Except.bind]
    cases terminator with
    | close => exact absurd rfl hclose
    | colon => exact specField_unclosed hrest name none
    | bang =>
        cases rest with
        | nil => exact ⟨_, rfl, rfl⟩
        | cons conversion rest =>
            cases rest with
            | nil => exact ⟨_, rfl, rfl⟩
            | cons c rest =>
                obtain ⟨-, hc, hrest⟩ := by simpa only [List.forall_mem_cons] using hrest
                simp only
                rw [if_neg hc]
                split
                · exact specField_unclosed hrest name (some conversion)
                · exact ⟨_, rfl, rfl⟩

/-- The characters that mean something inside a replacement field. -/
def isMarkup (c : Char) : Bool :=
  c == '{' || c == '}' || c == ':' || c == '!' || c == '[' || c == '.'

/-- A field name without markup and without a leading digit, as an identifier is. -/
structure PlainName (name : List Char) : Prop where
  nonempty : name ≠ []
  plain : ∀ c ∈ name, isMarkup c = false
  noIndex : name.head?.bind Text.decimal? = none

theorem scanName_plain {name : List Char} (hplain : ∀ c ∈ name, isMarkup c = false)
    (rest scanned : List Char) :
    scanName scanned false (name ++ '}' :: rest) = .ok (scanned.reverse ++ name, .close, rest) := by
  induction name generalizing scanned with
  | nil => simp [scanName]
  | cons c name ih =>
      obtain ⟨hc, hname⟩ := List.forall_mem_cons.mp hplain
      simp only [isMarkup, Bool.or_eq_false_iff, beq_eq_false_iff_ne] at hc
      obtain ⟨⟨⟨⟨⟨hopen, hclose⟩, hcolon⟩, hbang⟩, hbracket⟩, -⟩ := hc
      have hnext : (c == '[') = false := beq_false_of_ne hbracket
      rw [List.cons_append, scanName]
      simp only [Bool.false_eq_true, hopen, hclose, hcolon, hbang, if_false, hnext]
      rw [ih hname]
      simp

theorem parseField_plain {name : List Char} (h : PlainName name) (rest : List Char) :
    parseField (name ++ '}' :: rest) = .ok (⟨name, none, [], false⟩, rest) := by
  unfold parseField
  rw [scanName_plain h.plain rest []]
  rfl

/-- An opening brace that is not doubled begins a replacement field. -/
theorem nextMarkup_field {c : Char} (hc : c ≠ '{') (rest : List Char) :
    nextMarkup ('{' :: c :: rest) =
      (parseField (c :: rest)).map fun found => ([], some found.1, found.2) := by
  unfold nextMarkup
  simp only [isBrace, beq_self_eq_true, Bool.true_or, Bool.not_true, List.takeWhile_cons,
    List.dropWhile_cons, Bool.false_eq_true, if_false]
  split
  · rename_i heq
    cases heq
  · rename_i heq
    cases heq
  · rename_i heq
    cases heq
    exact absurd rfl hc
  · rename_i heq
    cases heq
  · rename_i heq
    cases heq
  · rename_i heq
    cases heq
    cases parseField (c :: rest) <;> rfl

theorem nextMarkup_plain {name : List Char} (h : PlainName name) (rest : List Char) :
    nextMarkup ('{' :: name ++ '}' :: rest) =
      .ok ([], some ⟨name, none, [], false⟩, rest) := by
  cases name with
  | nil => exact absurd rfl h.nonempty
  | cons c name =>
      have hc := (List.forall_mem_cons.mp h.plain).1
      have hopen : c ≠ '{' := by
        rintro rfl
        cases hc
      have hparse := parseField_plain h rest
      simp only [List.cons_append] at hparse ⊢
      rw [nextMarkup_field hopen, hparse]
      rfl

theorem fieldObject_plain {name : List Char} (h : PlainName name) (rt : Runtime) (args : Args) :
    fieldObject rt args name = args.named rt (String.ofList name) := by
  have hfirst : (name.takeWhile fun c => !isAccessor c) = name := by
    rw [List.takeWhile_eq_self_iff]
    intro c hc
    have hplain := h.plain c hc
    simp only [isMarkup, Bool.or_eq_false_iff] at hplain
    simp [isAccessor, hplain.1.2, hplain.2]
  have hrest : (name.dropWhile fun c => !isAccessor c) = [] := by
    have hsplit := List.takeWhile_append_dropWhile (p := fun c => !isAccessor c) (l := name)
    rw [hfirst] at hsplit
    exact List.append_right_eq_self.mp hsplit
  have hindex : index? name = .ok none := by
    cases name with
    | nil => rfl
    | cons c name =>
        have hdecimal : Text.decimal? c = none := h.noIndex
        simp [index?, List.mapM_cons, hdecimal]
  have hempty : name.isEmpty = false := by
    cases name with
    | nil => exact absurd rfl h.nonempty
    | cons c name => rfl
  rw [fieldObject_eq, hfirst, hrest, hindex]
  simp only [bind, Except.bind, firstObject, hempty, Bool.false_eq_true, if_false, follow]
  cases args.named rt (String.ofList name) <;> rfl

theorem renderAll_plain {name : List Char} (h : PlainName name) (rt : Runtime) (args : Args)
    (expandSpec : List Char → Py (List Char)) (fuel : Nat) (rest : List Char) {text : String}
    (hvalue : args.fields.lookup (String.ofList name) = some (.str text)) :
    renderAll rt args expandSpec (fuel + 1) ('{' :: name ++ '}' :: rest) =
      (renderAll rt args expandSpec fuel rest).map (text.toList ++ ·) := by
  have hne : '{' :: name ++ '}' :: rest ≠ [] := List.cons_ne_nil _ _
  have hnamed : args.named rt (String.ofList name) = .ok (.str text) := by
    rw [Args.named, hvalue]
  have hfield : renderField rt args expandSpec ⟨name, none, [], false⟩ = .ok text.toList := by
    simp only [renderField, fieldObject_plain h, hnamed, bind, Except.bind, convert, formatValue,
      pure, Except.pure]
    rfl
  rw [renderAll_succ rt args expandSpec fuel hne, nextMarkup_plain h]
  simp only [bind, Except.bind, fieldText, hfield]
  cases renderAll rt args expandSpec fuel rest <;> rfl

end Vnctlsd.Python.Format
