import Mathlib.Data.List.TakeWhile
import Mathlib.Logic.Function.Basic

/-! Templates of literal symbols and named holes, and texts read back by them.  A
hole takes one or more symbols of one class.  Of several readings of a text the
greedy one gives the first hole as much as it can, then the second, and so on. -/
namespace Vnctlsd.Library.Template

inductive Piece (α : Type u) (ν : Type v) where
  | lit (symbol : α)
  | hole (name : ν)

variable {α : Type u} {ν : Type v}

def names : List (Piece α ν) → List ν
  | [] => []
  | .lit _ :: rest => names rest
  | .hole name :: rest => name :: names rest

def fill (value : ν → List α) : List (Piece α ν) → List α
  | [] => []
  | .lit symbol :: rest => symbol :: fill value rest
  | .hole name :: rest => value name ++ fill value rest

/-- Every hole gets the value of its name. -/
def assign (value : ν → List α) (pieces : List (Piece α ν)) : List (ν × List α) :=
  (names pieces).map fun name => (name, value name)

/-- `values` is a reading of the text; `ends` says what may be left over. -/
inductive Reads (inside : α → Bool) (ends : List α → Bool) :
    List (Piece α ν) → List α → List (ν × List α) → Prop where
  | nil {text : List α} : ends text = true → Reads inside ends [] text []
  | lit {symbol : α} {rest : List (Piece α ν)} {text : List α} {values : List (ν × List α)} :
      Reads inside ends rest text values →
      Reads inside ends (.lit symbol :: rest) (symbol :: text) values
  | hole {name : ν} {rest : List (Piece α ν)} {value text : List α}
      {values : List (ν × List α)} :
      value ≠ [] → (∀ symbol ∈ value, inside symbol = true) →
      Reads inside ends rest text values →
      Reads inside ends (.hole name :: rest) (value ++ text) ((name, value) :: values)

/-- The first value in which two readings differ is longer in the first one. -/
inductive Precedes : List (ν × List α) → List (ν × List α) → Prop where
  | here {name other : ν} {value shorter : List α} {values others : List (ν × List α)} :
      shorter.length < value.length →
      Precedes ((name, value) :: values) ((other, shorter) :: others)
  | there {entry : ν × List α} {values others : List (ν × List α)} :
      Precedes values others → Precedes (entry :: values) (entry :: others)

theorem Precedes.asymm {left right : List (ν × List α)} (h : Precedes left right) :
    ¬ Precedes right left := by
  induction h with
  | here hlonger =>
      intro hback
      cases hback with
      | here hshorter => omega
      | there => omega
  | there _ ih =>
      intro hback
      cases hback with
      | here hshorter => omega
      | there hback => exact ih hback

theorem findSome?_longest {β : Type w} {f : Nat → Option β} {bound : Nat} {found : β} :
    (List.range bound).reverse.findSome? f = some found ↔
      ∃ k, k < bound ∧ f k = some found ∧ ∀ j, k < j → j < bound → f j = none := by
  induction bound with
  | zero => simp
  | succ bound ih =>
      rw [List.range_succ, List.reverse_append, List.reverse_singleton, List.singleton_append,
        List.findSome?_cons]
      cases hlast : f bound with
      | some last =>
          constructor
          · intro heq
            refine ⟨bound, Nat.lt_succ_self bound, hlast.trans heq, ?_⟩
            intro j hlower hupper
            omega
          · rintro ⟨k, hk, hfound, hlonger⟩
            by_cases heq : k = bound
            · rw [← hfound, heq, hlast]
            · have hnone := hlonger bound (by omega) (Nat.lt_succ_self bound)
              rw [hlast] at hnone
              cases hnone
      | none =>
          dsimp only
          rw [ih]
          constructor
          · rintro ⟨k, hk, hfound, hlonger⟩
            refine ⟨k, by omega, hfound, fun j hlower hupper => ?_⟩
            by_cases heq : j = bound
            · rw [heq, hlast]
            · exact hlonger j hlower (by omega)
          · rintro ⟨k, hk, hfound, hlonger⟩
            have hne : k ≠ bound := by
              rintro rfl
              rw [hlast] at hfound
              cases hfound
            exact ⟨k, by omega, hfound, fun j hlower hupper => hlonger j hlower (by omega)⟩

section

variable [DecidableEq α] (inside : α → Bool) (ends : List α → Bool)

def readBack : List (Piece α ν) → List α → Option (List (ν × List α))
  | [], text => if ends text then some [] else none
  | .lit symbol :: rest, text =>
      match text with
      | [] => none
      | head :: text => if symbol = head then readBack rest text else none
  | .hole name :: rest, text =>
      (List.range (text.takeWhile inside).length).reverse.findSome? fun k =>
        (readBack rest (text.drop (k + 1))).map fun values => (name, text.take (k + 1)) :: values

variable {inside ends} {pieces : List (Piece α ν)} {text : List α} {values : List (ν × List α)}

theorem reads_of_readBack (h : readBack inside ends pieces text = some values) :
    Reads inside ends pieces text values := by
  induction pieces generalizing text values with
  | nil =>
      rw [readBack] at h
      split at h
      · cases h
        exact .nil ‹_›
      · cases h
  | cons piece rest ih =>
      cases piece with
      | lit symbol =>
          cases text with
          | nil => cases h
          | cons head text =>
              simp only [readBack] at h
              split at h
              · rename_i heq
                subst heq
                exact .lit (ih h)
              · cases h
      | hole name =>
          rw [readBack, findSome?_longest] at h
          obtain ⟨k, hk, hfound, -⟩ := h
          obtain ⟨others, hothers, rfl⟩ := Option.map_eq_some_iff.mp hfound
          have hleading : text.take (k + 1) = (text.takeWhile inside).take (k + 1) := by
            rw [List.takeWhile_eq_take_findIdx_not] at hk ⊢
            simp only [List.length_take] at hk
            rw [List.take_take]
            congr 1
            omega
          have hne : text.take (k + 1) ≠ [] := by
            intro hnil
            have hlength := congrArg List.length hnil
            have hle := (List.takeWhile_sublist inside (l := text)).length_le
            simp only [List.length_take, List.length_nil] at hlength
            omega
          have hinside : ∀ symbol ∈ text.take (k + 1), inside symbol = true := by
            intro symbol hsymbol
            rw [hleading] at hsymbol
            exact List.mem_takeWhile_imp (List.mem_of_mem_take hsymbol)
          have hreads : Reads inside ends (.hole name :: rest)
              (text.take (k + 1) ++ text.drop (k + 1)) ((name, text.take (k + 1)) :: others) :=
            .hole hne hinside (ih hothers)
          rwa [List.take_append_drop] at hreads

omit [DecidableEq α] in
theorem length_le_run {value : List α} (text : List α)
    (hinside : ∀ symbol ∈ value, inside symbol = true) :
    value.length ≤ ((value ++ text).takeWhile inside).length := by
  rw [List.takeWhile_append_of_pos hinside, List.length_append]
  omega

theorem exists_readBack (h : Reads inside ends pieces text values) :
    ∃ found, readBack inside ends pieces text = some found := by
  induction h with
  | nil hends => exact ⟨[], by rw [readBack, if_pos hends]⟩
  | lit _ ih =>
      rw [readBack, if_pos rfl]
      exact ih
  | @hole name rest value text others hne hinside _ ih =>
      obtain ⟨tail, htail⟩ := ih
      have hrun := length_le_run text hinside
      have hpos : 0 < value.length := List.length_pos_iff.mpr hne
      rw [readBack]
      cases hfound : (List.range ((value ++ text).takeWhile inside).length).reverse.findSome?
          fun k => (readBack inside ends rest ((value ++ text).drop (k + 1))).map fun values =>
            (name, (value ++ text).take (k + 1)) :: values with
      | some found => exact ⟨found, rfl⟩
      | none =>
          have hmem : value.length - 1 ∈
              (List.range ((value ++ text).takeWhile inside).length).reverse := by
            rw [List.mem_reverse, List.mem_range]
            omega
          have hnone := List.findSome?_eq_none_iff.mp hfound _ hmem
          rw [Nat.sub_add_cancel hpos, List.drop_left, htail] at hnone
          cases hnone

/-- The reading that is found precedes every other one. -/
theorem precedes_of_readBack {other : List (ν × List α)}
    (h : readBack inside ends pieces text = some values)
    (hother : Reads inside ends pieces text other) : other = values ∨ Precedes values other := by
  induction hother generalizing values with
  | nil hends =>
      rw [readBack, if_pos hends] at h
      exact .inl (Option.some.inj h)
  | lit _ ih =>
      rw [readBack, if_pos rfl] at h
      exact ih h
  | @hole name rest value text others hne hinside hrest ih =>
      rw [readBack, findSome?_longest] at h
      obtain ⟨k, hk, hfound, hlonger⟩ := h
      obtain ⟨tail, htail, rfl⟩ := Option.map_eq_some_iff.mp hfound
      have hrun := length_le_run text hinside
      have hpos : 0 < value.length := List.length_pos_iff.mpr hne
      have hdrop : (value ++ text).drop (value.length - 1 + 1) = text := by
        rw [Nat.sub_add_cancel hpos, List.drop_left]
      have htake : (value ++ text).take (value.length - 1 + 1) = value := by
        rw [Nat.sub_add_cancel hpos, List.take_left]
      rcases Nat.lt_trichotomy k (value.length - 1) with hlt | heq | hgt
      · -- a longer run that can be completed would have been found first
        have hnone := hlonger (value.length - 1) hlt (by omega)
        rw [hdrop, Option.map_eq_none_iff] at hnone
        obtain ⟨found, hfound⟩ := exists_readBack hrest
        rw [hfound] at hnone
        cases hnone
      · subst heq
        rw [hdrop] at htail
        rw [htake]
        rcases ih htail with rfl | hprecedes
        · exact .inl rfl
        · exact .inr (.there hprecedes)
      · refine .inr (.here ?_)
        have hle := (List.takeWhile_sublist inside (l := value ++ text)).length_le
        rw [List.length_take]
        omega

/-- What is found is the greedy reading: no other one precedes it. -/
theorem readBack_eq_some_iff : readBack inside ends pieces text = some values ↔
    Reads inside ends pieces text values ∧
      ∀ other, Reads inside ends pieces text other → ¬ Precedes other values := by
  constructor
  · intro h
    refine ⟨reads_of_readBack h, fun other hother hprecedes => ?_⟩
    rcases precedes_of_readBack h hother with rfl | hback
    · exact hprecedes.asymm hprecedes
    · exact hback.asymm hprecedes
  · rintro ⟨hreads, hgreedy⟩
    obtain ⟨found, hfound⟩ := exists_readBack hreads
    rcases precedes_of_readBack hfound hreads with rfl | hprecedes
    · exact hfound
    · exact absurd hprecedes (hgreedy found (reads_of_readBack hfound))

end

section

variable {inside : α → Bool} {ends : List α → Bool} {pieces : List (Piece α ν)} {text : List α}
  {values : List (ν × List α)}

theorem names_of_reads (h : Reads inside ends pieces text values) :
    values.map Prod.fst = names pieces := by
  induction h with
  | nil _ => rfl
  | lit _ ih => exact ih
  | hole _ _ _ ih => exact congrArg (_ :: ·) ih

theorem value_of_reads (h : Reads inside ends pieces text values) :
    ∀ entry ∈ values, entry.2 ≠ [] ∧ ∀ symbol ∈ entry.2, inside symbol = true := by
  induction h with
  | nil _ => exact fun entry hentry => (List.not_mem_nil hentry).elim
  | lit _ ih => exact ih
  | hole hne hinside _ ih => exact List.forall_mem_cons.mpr ⟨⟨hne, hinside⟩, ih⟩

/-- A reading that gives every name its value is the assignment of these values. -/
theorem eq_assign {value : ν → List α} (hnames : values.map Prod.fst = names pieces)
    (hvalue : ∀ entry ∈ values, entry.2 = value entry.1) : values = assign value pieces := by
  unfold assign
  rw [← hnames, List.map_map]
  refine (List.map_id values).symm.trans (List.map_congr_left fun entry hentry => ?_)
  exact Prod.ext rfl (hvalue entry hentry)

theorem lookup_assign [BEq ν] [LawfulBEq ν] {value : ν → List α} {name : ν}
    (h : name ∈ names pieces) : (assign value pieces).lookup name = some (value name) := by
  unfold assign
  generalize names pieces = listed at h ⊢
  induction listed with
  | nil => cases h
  | cons head rest ih =>
      rw [List.map_cons, List.lookup_cons]
      cases hhead : name == head with
      | true => rw [eq_of_beq hhead]
      | false =>
          rcases List.mem_cons.mp h with heq | hmem
          · exact absurd heq (ne_of_beq_false hhead)
          · exact ih hmem

/-- A reading of two templates in a row is one of each; only the last may leave
something over. -/
theorem reads_append_iff {left right : List (Piece α ν)} :
    Reads inside ends (left ++ right) text values ↔ ∃ front back first second,
      text = front ++ back ∧ values = first ++ second ∧
      Reads inside List.isEmpty left front first ∧ Reads inside ends right back second := by
  constructor
  · intro h
    induction left generalizing text values with
    | nil => exact ⟨[], text, [], values, rfl, rfl, .nil rfl, h⟩
    | cons piece rest ih =>
        cases piece with
        | lit symbol =>
            cases h with
            | lit h =>
                obtain ⟨front, back, first, second, rfl, rfl, hfirst, hsecond⟩ := ih h
                exact ⟨symbol :: front, back, first, second, rfl, rfl, .lit hfirst, hsecond⟩
        | hole name =>
            cases h with
            | @hole _ _ value _ _ hne hinside h =>
                obtain ⟨front, back, first, second, rfl, rfl, hfirst, hsecond⟩ := ih h
                exact ⟨value ++ front, back, (name, value) :: first, second,
                  (List.append_assoc ..).symm, rfl, .hole hne hinside hfirst, hsecond⟩
  · rintro ⟨front, back, first, second, rfl, rfl, hfirst, hsecond⟩
    induction left generalizing front first with
    | nil =>
        cases hfirst with
        | nil hends =>
            obtain rfl := List.isEmpty_iff.mp hends
            exact hsecond
    | cons piece rest ih =>
        cases hfirst with
        | lit h => exact .lit (ih _ _ h)
        | hole hne hinside h =>
            rw [List.append_assoc]
            exact .hole hne hinside (ih _ _ h)

/-- A reading is one of the whole text, up to what may be left over. -/
theorem reads_iff_whole : Reads inside ends pieces text values ↔ ∃ body tail,
    text = body ++ tail ∧ ends tail = true ∧ Reads inside List.isEmpty pieces body values := by
  have happend := @reads_append_iff _ _ inside ends text values pieces []
  rw [List.append_nil] at happend
  rw [happend]
  constructor
  · rintro ⟨body, tail, first, second, rfl, rfl, hfirst, hsecond⟩
    cases hsecond with
    | nil hends => exact ⟨body, tail, rfl, hends, by rwa [List.append_nil]⟩
  · rintro ⟨body, tail, rfl, hends, h⟩
    exact ⟨body, tail, values, [], rfl, (List.append_nil _).symm, h, .nil hends⟩

theorem Precedes.append_left (shared : List (ν × List α)) {left right : List (ν × List α)}
    (h : Precedes left right) : Precedes (shared ++ left) (shared ++ right) := by
  induction shared with
  | nil => exact h
  | cons entry rest ih => exact .there ih

/-- Where no two holes have one name, every reading is an assignment. -/
theorem exists_assign_of_reads [DecidableEq ν] (hnodup : (names pieces).Nodup)
    (h : Reads inside ends pieces text values) :
    ∃ value, values = assign value pieces ∧
      ∀ name ∈ names pieces, value name ≠ [] ∧ ∀ symbol ∈ value name, inside symbol = true := by
  induction h with
  | nil _ => exact ⟨fun _ => [], rfl, by simp [names]⟩
  | lit _ ih => exact ih hnodup
  | @hole name rest value text others hne hinside _ ih =>
      obtain ⟨hfresh, hrest⟩ := List.nodup_cons.mp hnodup
      obtain ⟨others', rfl, hothers⟩ := ih hrest
      have hsame : ∀ other ∈ names rest, Function.update others' name value other = others' other :=
        fun other hother => Function.update_of_ne (ne_of_mem_of_not_mem hother hfresh) ..
      refine ⟨Function.update others' name value, ?_, ?_⟩
      · simp only [assign, names, List.map_cons, Function.update_self]
        refine congrArg ((name, value) :: ·) (List.map_congr_left fun other hother => ?_)
        rw [hsame other hother]
      · refine List.forall_mem_cons.mpr ⟨?_, fun other hother => ?_⟩
        · rw [Function.update_self]
          exact ⟨hne, hinside⟩
        · rw [hsame other hother]
          exact hothers other hother

/-- A filled template reads back. -/
theorem reads_fill {value : ν → List α} (hends : ends [] = true)
    (h : ∀ name ∈ names pieces, value name ≠ [] ∧ ∀ symbol ∈ value name, inside symbol = true) :
    Reads inside ends pieces (fill value pieces) (assign value pieces) := by
  induction pieces with
  | nil => exact .nil hends
  | cons piece rest ih =>
      cases piece with
      | lit symbol => exact .lit (ih h)
      | hole name =>
          obtain ⟨hname, hrest⟩ := List.forall_mem_cons.mp h
          exact .hole hname.1 hname.2 (ih hrest)

/-- A text is the template filled with its reading, and what may be left over. -/
theorem eq_fill_of_reads {value : ν → List α}
    (h : Reads inside ends pieces text (assign value pieces)) :
    ∃ tail, ends tail = true ∧ text = fill value pieces ++ tail := by
  induction pieces generalizing text with
  | nil =>
      cases h with
      | nil hends => exact ⟨text, hends, rfl⟩
  | cons piece rest ih =>
      cases piece with
      | lit symbol =>
          cases h with
          | lit h =>
              obtain ⟨tail, hends, rfl⟩ := ih h
              exact ⟨tail, hends, rfl⟩
      | hole name =>
          cases h with
          | hole _ _ h =>
              obtain ⟨tail, hends, rfl⟩ := ih h
              exact ⟨tail, hends, (List.append_assoc ..).symm⟩

end

end Vnctlsd.Library.Template
