import Vnctlsd.Library.Erasure
import Vnctlsd.Monitor.Commands

/-! What is left of a command's escape sequences in the text the client sees.  One
substitution takes every sequence out; what stood around it may be a sequence then. -/
namespace Vnctlsd.Monitor.EscapeSequences
open Vnctlsd.Python Vnctlsd.Library.Erasure Output

def isParameter (c : Char) : Bool := inRange '0' '?' c
def isIntermediate (c : Char) : Bool := inRange ' ' '/' c
def isFinal (c : Char) : Bool := inRange '@' '~' c

/-- The pattern behind the escape character: one character, or `[`, parameters,
intermediates and a final one. -/
def Body (body : List Char) : Prop :=
  (∃ c, body = [c] ∧ isEscFinal c = true) ∨
    ∃ parameters intermediates final, body = '[' :: (parameters ++ (intermediates ++ [final])) ∧
      (∀ c ∈ parameters, isParameter c = true) ∧
      (∀ c ∈ intermediates, isIntermediate c = true) ∧ isFinal final = true

/-- The three ranges of a control sequence, and the escape character, are apart. -/
theorem isParameter_of_isIntermediate {c : Char} (h : isIntermediate c = true) :
    isParameter c = false := by
  simp only [isIntermediate, isParameter, inRange, Bool.and_eq_true, decide_eq_true_eq,
    Bool.and_eq_false_iff, decide_eq_false_iff_not, show '/'.toNat = 47 from rfl,
    show '0'.toNat = 48 from rfl] at *
  omega

theorem not_of_isFinal {c : Char} (h : isFinal c = true) :
    isParameter c = false ∧ isIntermediate c = false := by
  simp only [isFinal, isIntermediate, isParameter, inRange, Bool.and_eq_true, decide_eq_true_eq,
    Bool.and_eq_false_iff, decide_eq_false_iff_not, show '@'.toNat = 64 from rfl,
    show '/'.toNat = 47 from rfl, show '?'.toNat = 63 from rfl] at *
  omega

theorem dropWhile_eq_self {p : Char → Bool} {c : Char} (h : p c = false) (s : List Char) :
    (c :: s).dropWhile p = c :: s := by
  rw [List.dropWhile_cons, if_neg (by simp [h])]

theorem csiRest_eq_some_iff (s r : List Char) :
    csiRest s = some r ↔ ∃ parameters intermediates final,
      s = parameters ++ (intermediates ++ final :: r) ∧
      (∀ c ∈ parameters, isParameter c = true) ∧
      (∀ c ∈ intermediates, isIntermediate c = true) ∧ isFinal final = true := by
  constructor
  · intro h
    have hparameters := List.takeWhile_append_dropWhile (p := isParameter) (l := s)
    have hintermediates := List.takeWhile_append_dropWhile (p := isIntermediate)
      (l := s.dropWhile isParameter)
    rw [csiRest] at h
    split at h
    · rename_i c rest hrest
      change (s.dropWhile isParameter).dropWhile isIntermediate = c :: rest at hrest
      rw [hrest] at hintermediates
      split at h
      · cases h
        refine ⟨s.takeWhile isParameter, (s.dropWhile isParameter).takeWhile isIntermediate, c, ?_,
          fun d hd => List.mem_takeWhile_imp hd, fun d hd => List.mem_takeWhile_imp hd, ‹_›⟩
        rw [hintermediates, hparameters]
      · cases h
    · cases h
  · rintro ⟨parameters, intermediates, final, rfl, hparameters, hintermediates, hfinal⟩
    have hbehind : (intermediates ++ final :: r).dropWhile isParameter =
        intermediates ++ final :: r := by
      cases intermediates with
      | nil => exact dropWhile_eq_self (not_of_isFinal hfinal).1 r
      | cons c intermediates =>
          exact dropWhile_eq_self
            (isParameter_of_isIntermediate (hintermediates c (List.mem_cons_self ..))) _
    have hdrop : ((parameters ++ (intermediates ++ final :: r)).dropWhile isParameter).dropWhile
        isIntermediate = final :: r := by
      rw [List.dropWhile_append_of_pos hparameters, hbehind,
        List.dropWhile_append_of_pos hintermediates]
      exact dropWhile_eq_self (not_of_isFinal hfinal).2 r
    unfold csiRest
    unfold isParameter isIntermediate at hdrop
    rw [hdrop]
    exact if_pos hfinal

theorem escapeRest_eq_some_iff (s r : List Char) :
    escapeRest s = some r ↔ ∃ body, Body body ∧ s = body ++ r := by
  cases s with
  | nil =>
      refine ⟨fun h => (by cases h), ?_⟩
      rintro ⟨body, ⟨c, rfl, -⟩ | ⟨parameters, intermediates, final, rfl, -⟩, heq⟩ <;> cases heq
  | cons c s =>
      by_cases hcsi : c = '['
      · subst hcsi
        rw [show escapeRest ('[' :: s) = csiRest s from rfl, csiRest_eq_some_iff]
        constructor
        · rintro ⟨parameters, intermediates, final, rfl, hall⟩
          exact ⟨_, .inr ⟨parameters, intermediates, final, rfl, hall⟩, by simp⟩
        · rintro ⟨body, ⟨c, rfl, hfinal⟩ | ⟨parameters, intermediates, final, rfl, hall⟩, heq⟩
          · cases heq
            exact absurd hfinal (by decide)
          · cases heq
            exact ⟨parameters, intermediates, final, by simp, hall⟩
      · have hpair : escapeRest (c :: s) = if isEscFinal c then some s else none := by
          rw [escapeRest]
          exact hcsi
        rw [hpair]
        constructor
        · intro h
          split at h
          · cases h
            exact ⟨[c], .inl ⟨c, rfl, ‹_›⟩, rfl⟩
          · cases h
        · rintro ⟨body, ⟨d, rfl, hfinal⟩ | ⟨parameters, intermediates, final, rfl, -⟩, heq⟩
          · cases heq
            exact if_pos hfinal
          · cases heq
            exact absurd rfl hcsi

/-- The characters of a body are printable, and the last one is no white space. -/
theorem Body.printable {body : List Char} (h : Body body) : ∀ c ∈ body, 32 ≤ c.toNat := by
  have hescFinal : ∀ c, isEscFinal c = true → 32 ≤ c.toNat := by
    intro c hc
    simp only [isEscFinal, inRange, Bool.or_eq_true, Bool.and_eq_true, decide_eq_true_eq,
      show '@'.toNat = 64 from rfl, show '\\'.toNat = 92 from rfl] at hc
    omega
  have hrange : ∀ c, isParameter c = true ∨ isIntermediate c = true ∨ isFinal c = true →
      32 ≤ c.toNat := by
    intro c hc
    simp only [isParameter, isIntermediate, isFinal, inRange, Bool.and_eq_true,
      decide_eq_true_eq, show '0'.toNat = 48 from rfl, show ' '.toNat = 32 from rfl,
      show '@'.toNat = 64 from rfl] at hc
    omega
  intro c hc
  obtain ⟨d, rfl, hd⟩ | ⟨parameters, intermediates, final, rfl, hp, hi, hf⟩ := h
  · rw [List.mem_singleton.mp hc]
    exact hescFinal d hd
  · simp only [List.mem_cons, List.mem_append, List.not_mem_nil, or_false] at hc
    rcases hc with rfl | hc | hc | rfl
    · decide
    · exact hrange c (.inl (hp c hc))
    · exact hrange c (.inr (.inl (hi c hc)))
    · exact hrange c (.inr (.inr hf))

theorem Body.last {body : List Char} (h : Body body) :
    ∃ front last, body = front ++ [last] ∧ Text.isSpace last = false := by
  obtain ⟨d, rfl, hd⟩ | ⟨parameters, intermediates, final, rfl, -, -, hf⟩ := h
  · refine ⟨[], d, rfl, ?_⟩
    simp only [isEscFinal, inRange, Bool.or_eq_true, Bool.and_eq_true, decide_eq_true_eq,
      show '@'.toNat = 64 from rfl, show 'Z'.toNat = 90 from rfl,
      show '\\'.toNat = 92 from rfl, show '_'.toNat = 95 from rfl] at hd
    grind [Text.isSpace]
  · refine ⟨'[' :: (parameters ++ intermediates), final, by simp, ?_⟩
    simp only [isFinal, inRange, Bool.and_eq_true, decide_eq_true_eq,
      show '@'.toNat = 64 from rfl, show '~'.toNat = 126 from rfl] at hf
    grind [Text.isSpace]

def ansi : Marked Char where
  mark := esc
  Body := Body
  rest := escapeRest
  rest_eq_some_iff := escapeRest_eq_some_iff
  unmarked := fun _ h hmem => absurd (h.printable _ hmem) (by decide)

theorem erases_stripFrom {n : Nat} {s : List Char} (hlength : s.length ≤ n) :
    Erases ansi s (stripFrom n s) := by
  induction n generalizing s with
  | zero =>
      obtain rfl := List.eq_nil_of_length_eq_zero (Nat.le_zero.mp hlength)
      exact .nil
  | succ n ih =>
      cases s with
      | nil => exact .nil
      | cons c rest =>
          rw [List.length_cons] at hlength
          rw [stripFrom]
          split
          · rename_i hmark
            subst hmark
            split
            · rename_i r hrest
              obtain ⟨body, hbody, rfl⟩ := (escapeRest_eq_some_iff _ _).mp hrest
              rw [List.length_append] at hlength
              exact .word (L := ansi) hbody (ih (by omega))
            · rename_i hnone
              refine .keep ?_ (ih (by omega))
              rintro ⟨body, post, hbody, heq⟩
              cases heq
              rw [(escapeRest_eq_some_iff _ _).mpr ⟨body, hbody, rfl⟩] at hnone
              cases hnone
          · rename_i hmark
            exact .keep (not_begins_of_ne (L := ansi) hmark rest) (ih (by omega))

theorem erases_stripAnsi (text : String) : Erases ansi text.toList (stripAnsi text).toList := by
  rw [stripAnsi, String.toList_ofList]
  exact erases_stripFrom (Nat.le_refl _)

/-- A part of the text is matched by `_ANSI_ESCAPE`. -/
def Matched (text : String) : Prop := Occurs ansi text.toList

/-- The text has an escape sequence with whole escape sequences inside it. -/
def Nested (text : String) : Prop := Interrupted ansi text.toList

theorem matched_stripAnsi_iff (text : String) : Matched (stripAnsi text) ↔ Nested text :=
  (erases_stripAnsi text).occurs_iff

theorem stripAnsi_eq_self_iff (text : String) : stripAnsi text = text ↔ ¬ Matched text := by
  rw [Matched, ← erases_self_iff]
  constructor
  · intro h
    have herases := erases_stripAnsi text
    rwa [h] at herases
  · intro h
    exact String.toList_injective ((erases_stripAnsi text).unique h)

theorem stripAnsi_idempotent_iff (text : String) :
    stripAnsi (stripAnsi text) = stripAnsi text ↔ ¬ Nested text := by
  rw [stripAnsi_eq_self_iff, matched_stripAnsi_iff]

theorem matched_append_iff_of_unmarked {before : String} (h : esc ∉ before.toList)
    (text : String) : Matched (before ++ text) ↔ Matched text := by
  rw [Matched, String.toList_append]
  exact occurs_append_iff_of_unmarked (L := ansi) h text.toList

/-- A line keeps what it holds apart from the lines after it. -/
theorem matched_line_iff {before : String} (h : esc ∉ before.toList) (text rest : String) :
    Matched (before ++ text ++ "\r\n" ++ rest) ↔ Matched text ∨ Matched rest := by
  have hsplit : (before ++ text ++ "\r\n" ++ rest).toList =
      (before ++ text).toList ++ '\r' :: ("\n" ++ rest).toList := by
    simp [String.toList_append]
  rw [Matched, hsplit, occurs_append_cons_iff (L := ansi) (by decide)
    (fun _ hbody hmem => absurd (Body.printable hbody _ hmem) (by decide))]
  exact or_congr (matched_append_iff_of_unmarked h text)
    (matched_append_iff_of_unmarked (by decide) rest)

theorem not_matched_empty : ¬ Matched "" := not_occurs_nil (L := ansi)

theorem matched_lines_iff {rows : List ι} {before : ι → String} (text : ι → String)
    (h : ∀ row ∈ rows, esc ∉ (before row).toList) :
    Matched (String.join (rows.map fun row => before row ++ text row ++ "\r\n")) ↔
      ∃ row ∈ rows, Matched (text row) := by
  induction rows with
  | nil => simpa using not_matched_empty
  | cons row rows ih =>
      rw [List.forall_mem_cons] at h
      rw [List.map_cons, String.join_cons, matched_line_iff h.1, ih h.2, List.exists_mem_cons_iff]

theorem matched_rstrip_iff (text : String) : Matched (Text.rstrip text) ↔ Matched text := by
  have hsplit : text.toList = (Text.rstrip text).toList ++
      (text.toList.reverse.takeWhile Text.isSpace).reverse := by
    rw [Text.rstrip, String.toList_ofList, Text.stripRight, ← List.reverse_append,
      List.takeWhile_append_dropWhile, List.reverse_reverse]
  rw [Matched, Matched, hsplit]
  refine (occurs_append_iff_of_last (L := ansi) (fun body hbody => ?_) _).symm
  obtain ⟨front, last, rfl, hlast⟩ := Body.last hbody
  refine ⟨front, last, rfl, fun hmem => ?_⟩
  have hspace := List.mem_takeWhile_imp (List.mem_reverse.mp hmem)
  rw [hlast] at hspace
  cases hspace

/-- What of a result comes from the command; the labels of a table are configured. -/
def values : Normalized → List String
  | .string value => [value]
  | .list items => items
  | .table rows => rows.map Prod.snd
  | .status _ message => [message]

def labels : Normalized → List String
  | .table rows => rows.map Prod.fst
  | _ => []

theorem not_matched_of_unmarked {text : String} (h : esc ∉ text.toList) : ¬ Matched text := by
  rintro ⟨pre, body, post, -, heq⟩
  exact h (heq ▸ List.mem_append_right pre (List.mem_cons_self ..))

theorem unmarked_append {first second : String} (h : esc ∉ first.toList)
    (h' : esc ∉ second.toList) : esc ∉ (first ++ second).toList := by
  rw [String.toList_append, List.mem_append, not_or]
  exact ⟨h, h'⟩

theorem unmarked_padRight {text : String} (h : esc ∉ text.toList) (width : Nat) :
    esc ∉ (padRight width text).toList := by
  refine unmarked_append h fun hmem => ?_
  rw [String.toList_ofList] at hmem
  exact absurd (List.eq_of_mem_replicate hmem) (by decide)

theorem matched_renderNormalized_iff (result : Normalized)
    (h : ∀ label ∈ labels result, esc ∉ label.toList) :
    Matched (renderNormalized result) ↔ ∃ value ∈ values result, Nested value := by
  have hempty : esc ∉ "".toList := List.not_mem_nil
  have hblank : esc ∉ "  ".toList := by decide
  have hnone : ¬ Matched "(empty)\r\n" := not_matched_of_unmarked (by decide)
  simp only [← matched_stripAnsi_iff]
  cases result with
  | string value =>
      have hline := matched_line_iff hempty (Text.rstrip (stripAnsi value)) ""
      rw [String.empty_append, String.append_empty] at hline
      rw [renderNormalized, hline, matched_rstrip_iff, or_iff_left not_matched_empty]
      simp [values]
  | list items =>
      cases items with
      | nil => exact iff_of_false hnone fun h => by simp [values] at h
      | cons item items =>
          exact matched_lines_iff stripAnsi fun _ _ => hblank
  | table rows =>
      cases rows with
      | nil => exact iff_of_false hnone fun h => by simp [values] at h
      | cons row rows =>
          have hlabels : ∀ each ∈ row :: rows, esc ∉ ("  " ++ padRight (labelWidth (row :: rows))
              (stripAnsi each.1) ++ "  ").toList := by
            intro each heach
            have hlabel := h each.1 (List.mem_map_of_mem heach)
            rw [(stripAnsi_eq_self_iff _).mpr (not_matched_of_unmarked hlabel)]
            exact unmarked_append (unmarked_append hblank (unmarked_padRight hlabel _)) hblank
          rw [renderNormalized, matched_lines_iff (fun each => stripAnsi each.2) hlabels]
          · simp only [values, List.mem_map, exists_exists_and_eq_and]
          · exact fun heq => by cases heq
  | status ok message =>
      have hprefix : esc ∉ ((if ok then "✓" else "✗") ++ " ").toList := by
        cases ok <;> decide
      have hline := matched_line_iff hprefix (stripAnsi message) ""
      rw [String.append_empty] at hline
      rw [renderNormalized, hline, or_iff_left not_matched_empty]
      simp [values]

def rowLabel? (rt : Runtime) : PyVal → Option String
  | .list [label, _] => some (rt.str label)
  | _ => none

/-- The labels that a filter configures. -/
def configuredLabels (rt : Runtime) (filterDef : PyVal) : List String :=
  match filterDef.get "rows" .emptyList >>= PyVal.iter with
  | .ok rowDefs => rowDefs.filterMap (rowLabel? rt)
  | .error _ => []

theorem label_of_tableRow {rt : Runtime} {parsed row : PyVal} {raw : String}
    {cells : String × String} (h : tableRow rt parsed raw row = .ok (some cells)) :
    rowLabel? rt row = some cells.1 := by
  unfold tableRow at h
  split at h
  · obtain ⟨value, -, h⟩ := bind_eq_ok.mp h
    cases h
    rfl
  · cases h

theorem labels_runFilter {rt : Runtime} {raw : String} {parsed filterDef : PyVal}
    {result : Normalized} (h : runFilter rt raw parsed filterDef = .ok result) :
    ∀ label ∈ labels result, label ∈ configuredLabels rt filterDef := by
  obtain ⟨outType, -, h⟩ := bind_eq_ok.mp h
  split at h
  · obtain ⟨tmpl, -, h⟩ := bind_eq_ok.mp h
    obtain ⟨value, -, h⟩ := bind_eq_ok.mp h
    cases h
    exact fun _ hlabel => (List.not_mem_nil hlabel).elim
  split at h
  · obtain ⟨itemsExpr, -, h⟩ := bind_eq_ok.mp h
    obtain ⟨items, -, h⟩ := bind_eq_ok.mp h
    cases h
    exact fun _ hlabel => (List.not_mem_nil hlabel).elim
  split at h
  · obtain ⟨rowsDef, hrowsDef, h⟩ := bind_eq_ok.mp h
    obtain ⟨rowDefs, hrowDefs, h⟩ := bind_eq_ok.mp h
    obtain ⟨rows, hrows, h⟩ := bind_eq_ok.mp h
    cases h
    intro label hlabel
    obtain ⟨cells, hcells, rfl⟩ := List.mem_map.mp hlabel
    obtain ⟨found, hfound, heq⟩ := List.mem_filterMap.mp hcells
    obtain ⟨row, hrow, hcell⟩ := mem_of_mapM hrows found hfound
    have hdefs : (filterDef.get "rows" .emptyList >>= PyVal.iter) = .ok rowDefs :=
      bind_eq_ok.mpr ⟨rowsDef, hrowsDef, hrowDefs⟩
    rw [configuredLabels, hdefs]
    rw [show found = some cells from heq] at hcell
    exact List.mem_filterMap.mpr ⟨row, hrow, label_of_tableRow hcell⟩
  split at h
  · obtain ⟨okPattern, -, h⟩ := bind_eq_ok.mp h
    obtain ⟨ok, -, h⟩ := bind_eq_ok.mp h
    obtain ⟨tmpl, -, h⟩ := bind_eq_ok.mp h
    obtain ⟨message, -, h⟩ := bind_eq_ok.mp h
    cases h
    exact fun _ hlabel => (List.not_mem_nil hlabel).elim
  · cases h
    exact fun _ hlabel => (List.not_mem_nil hlabel).elim

theorem labels_normalize (rt : Runtime) (raw : String) (fmt filterDef : PyVal) :
    ∀ label ∈ labels (normalize rt raw fmt filterDef),
      label ∈ configuredLabels rt filterDef := by
  unfold normalize
  split
  · rename_i result h
    unfold applyFilter at h
    split at h
    · dsimp only at h
      split at h
      · cases h
        exact fun _ hlabel => (List.not_mem_nil hlabel).elim
      · cases h
    · split at h
      · exact labels_runFilter h
      · cases h
        unfold wrapOutput
        split <;> exact fun _ hlabel => (List.not_mem_nil hlabel).elim
  · exact fun _ hlabel => (List.not_mem_nil hlabel).elim

/-- One pass of `_strip_ansi` is enough, and the text sent to the client is free of
escape sequences, exactly where no sequence has whole sequences inside it. -/
theorem escapeFree_iff (rt : Runtime) (text raw : String) (fmt filterDef : PyVal) :
    (stripAnsi (stripAnsi text) = stripAnsi text ↔ ¬ Nested text) ∧
      ((∀ label ∈ configuredLabels rt filterDef, esc ∉ label.toList) →
        (¬ Matched (renderNormalized (normalize rt raw fmt filterDef)) ↔
          ∀ value ∈ values (normalize rt raw fmt filterDef), ¬ Nested value)) := by
  refine ⟨stripAnsi_idempotent_iff text, fun hlabels => ?_⟩
  rw [matched_renderNormalized_iff _ fun label hlabel =>
    hlabels label (labels_normalize rt raw fmt filterDef label hlabel)]
  simp only [not_exists, not_and]

theorem escapeFree_iff_colored :
    ¬ Matched (renderNormalized
      (normalize .plain "\x1b[31mshut\x1b[1m off" (.str "raw") .none)) := by
  have hlabels : ∀ label ∈ configuredLabels .plain .none, esc ∉ label.toList :=
    fun _ hlabel => (List.not_mem_nil hlabel).elim
  have hiff := escapeFree_iff .plain "\x1b[31mshut\x1b[1m off" "\x1b[31mshut\x1b[1m off"
    (.str "raw") .none
  refine (hiff.2 hlabels).mpr fun value hvalue => ?_
  obtain rfl : value = "\x1b[31mshut\x1b[1m off" := List.mem_singleton.mp hvalue
  exact hiff.1.mp (by decide)

/-- A sequence in another one: what is left of the outer one is a sequence. -/
theorem nested_sequence_survives :
    stripAnsi "\x1b\x1bAA" = "\x1bA" ∧ stripAnsi "\x1bA" = "" ∧
      renderNormalized (normalize .plain "\x1b\x1bAA" (.str "raw") .none) = "\x1bA\r\n" ∧
      Matched "\x1bA\r\n" :=
  ⟨by decide, by decide, by decide, [], ['A'], ['\r', '\n'], .inl ⟨'A', rfl, by decide⟩, by decide⟩

end Vnctlsd.Monitor.EscapeSequences
