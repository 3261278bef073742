import Mathlib.Data.List.Basic

/-! Streams in which a mark changes the meaning of the symbol after it: a second
mark makes one literal mark, the stop symbol ends the stream, and before any
other symbol the mark is an ordinary one. -/
namespace Vnctlsd.Library.Escapes

structure Marks (α : Type u) where
  mark : α
  stop : α
  distinct : mark ≠ stop

variable {α : Type u}

/-- Where a stream leaves off: between two units, behind a mark that nothing
follows yet, or at a stop, with what comes after it. -/
inductive Ending (α : Type u) where
  | whole
  | held
  | stopped (rest : List α)
  deriving DecidableEq

def Ending.isHeld : Ending α → Bool
  | .held => true
  | _ => false

def Ending.isStopped : Ending α → Bool
  | .stopped _ => true
  | _ => false

structure Reading (α : Type u) where
  out : List α
  ending : Ending α
  deriving DecidableEq

def Reading.after (out : List α) (reading : Reading α) : Reading α :=
  { reading with out := out ++ reading.out }

@[simp] theorem Reading.after_nil (reading : Reading α) : Reading.after [] reading = reading := rfl

@[simp] theorem Reading.after_after (first second : List α) (reading : Reading α) :
    Reading.after first (Reading.after second reading) =
      Reading.after (first ++ second) reading := by
  simp [Reading.after]

/-- `Units marks spelled meant`: whole units and nothing else. -/
inductive Units (marks : Marks α) : List α → List α → Prop where
  | nil : Units marks [] []
  | plain {b : α} {spelled meant : List α} : b ≠ marks.mark → Units marks spelled meant →
      Units marks (b :: spelled) (b :: meant)
  | literal {spelled meant : List α} : Units marks spelled meant →
      Units marks (marks.mark :: marks.mark :: spelled) (marks.mark :: meant)
  | pair {b : α} {spelled meant : List α} : b ≠ marks.mark → b ≠ marks.stop →
      Units marks spelled meant →
      Units marks (marks.mark :: b :: spelled) (marks.mark :: b :: meant)

/-- The stop symbol stands behind a mark that is itself between two units. -/
def Stops (marks : Marks α) (s rest : List α) : Prop :=
  ∃ front meant, Units marks front meant ∧ s = front ++ marks.mark :: marks.stop :: rest

variable [DecidableEq α] (marks : Marks α)

def read : List α → Reading α
  | [] => ⟨[], .whole⟩
  | [b] => if b = marks.mark then ⟨[], .held⟩ else ⟨[b], .whole⟩
  | b :: c :: rest =>
      if b = marks.mark then
        if c = marks.stop then ⟨[], .stopped rest⟩
        else if c = marks.mark then (read rest).after [c]
        else (read rest).after [b, c]
      else (read (c :: rest)).after [b]

def doubled (s : List α) : List α :=
  s.flatMap fun b => if b = marks.mark then [b, b] else [b]

variable {marks}

@[simp] theorem read_nil : read marks [] = ⟨[], .whole⟩ := rfl

@[simp] theorem read_held : read marks [marks.mark] = ⟨[], .held⟩ := by simp [read]

@[simp] theorem read_stop (rest : List α) :
    read marks (marks.mark :: marks.stop :: rest) = ⟨[], .stopped rest⟩ := by simp [read]

@[simp] theorem read_literal (rest : List α) :
    read marks (marks.mark :: marks.mark :: rest) = (read marks rest).after [marks.mark] := by
  simp [read, marks.distinct]

theorem read_pair {b : α} (hmark : b ≠ marks.mark) (hstop : b ≠ marks.stop) (rest : List α) :
    read marks (marks.mark :: b :: rest) = (read marks rest).after [marks.mark, b] := by
  simp [read, hmark, hstop]

theorem read_plain {b : α} (h : b ≠ marks.mark) (rest : List α) :
    read marks (b :: rest) = (read marks rest).after [b] := by
  cases rest <;> simp [read, h, Reading.after]

/-- A stream is nothing, a lone mark, a stop, or a unit with a stream behind it. -/
theorem stream_induction (marks : Marks α) {motive : List α → Prop} (nil : motive [])
    (held : motive [marks.mark]) (stop : ∀ rest, motive (marks.mark :: marks.stop :: rest))
    (literal : ∀ rest, motive rest → motive (marks.mark :: marks.mark :: rest))
    (pair : ∀ b rest, b ≠ marks.mark → b ≠ marks.stop → motive rest →
      motive (marks.mark :: b :: rest))
    (plain : ∀ b rest, b ≠ marks.mark → motive rest → motive (b :: rest)) (s : List α) :
    motive s := by
  induction s using read.induct marks with
  | case1 => exact nil
  | case2 => exact held
  | case3 b hb => exact plain b [] hb nil
  | case4 rest => exact stop rest
  | case5 rest _ ih => exact literal rest ih
  | case6 c rest hstop hmark ih => exact pair c rest hmark hstop ih
  | case7 b c rest hb ih => exact plain b (c :: rest) hb ih

theorem read_units {front meant : List α} (h : Units marks front meant) (s : List α) :
    read marks (front ++ s) = (read marks s).after meant := by
  induction h with
  | nil => rfl
  | plain hb _ ih =>
      rw [List.cons_append, read_plain hb, ih, Reading.after_after]
      rfl
  | literal _ ih =>
      rw [List.cons_append, List.cons_append, read_literal, ih, Reading.after_after]
      rfl
  | pair hmark hstop _ ih =>
      rw [List.cons_append, List.cons_append, read_pair hmark hstop, ih, Reading.after_after]
      rfl

def Ending.spelled (marks : Marks α) : Ending α → List α
  | .whole => []
  | .held => [marks.mark]
  | .stopped rest => marks.mark :: marks.stop :: rest

/-- A reading accounts for every symbol of its stream. -/
theorem units_of_read (marks : Marks α) (s : List α) :
    ∃ front, Units marks front (read marks s).out ∧
      s = front ++ (read marks s).ending.spelled marks := by
  induction s using stream_induction marks with
  | nil => exact ⟨[], .nil, rfl⟩
  | held =>
      rw [read_held]
      exact ⟨[], .nil, rfl⟩
  | stop rest =>
      rw [read_stop]
      exact ⟨[], .nil, rfl⟩
  | literal rest ih =>
      obtain ⟨front, hunits, hspelled⟩ := ih
      rw [read_literal]
      exact ⟨_, .literal hunits, congrArg (marks.mark :: marks.mark :: ·) hspelled⟩
  | pair b rest hmark hstop ih =>
      obtain ⟨front, hunits, hspelled⟩ := ih
      rw [read_pair hmark hstop]
      exact ⟨_, .pair hmark hstop hunits, congrArg (marks.mark :: b :: ·) hspelled⟩
  | plain b rest hb ih =>
      obtain ⟨front, hunits, hspelled⟩ := ih
      rw [read_plain hb]
      exact ⟨_, .plain hb hunits, congrArg (b :: ·) hspelled⟩

theorem stops_iff {s rest : List α} :
    Stops marks s rest ↔ (read marks s).ending = .stopped rest := by
  constructor
  · rintro ⟨front, meant, hunits, rfl⟩
    rw [read_units hunits, read_stop]
    rfl
  · intro h
    obtain ⟨front, hunits, hspelled⟩ := units_of_read marks s
    rw [h] at hspelled
    exact ⟨front, _, hunits, hspelled⟩

/-- A stream is read on from where its beginning leaves off. -/
theorem read_append (s t : List α) :
    read marks (s ++ t) =
      match (read marks s).ending with
      | .whole => (read marks t).after (read marks s).out
      | .held => (read marks (marks.mark :: t)).after (read marks s).out
      | .stopped rest => ⟨(read marks s).out, .stopped (rest ++ t)⟩ := by
  obtain ⟨front, hunits, hspelled⟩ := units_of_read marks s
  conv_lhs => rw [hspelled, List.append_assoc, read_units hunits]
  cases (read marks s).ending with
  | whole => rfl
  | held => rfl
  | stopped rest =>
      rw [Ending.spelled, List.cons_append, List.cons_append, read_stop, Reading.after,
        List.append_nil]

theorem units_doubled (marks : Marks α) (s : List α) : Units marks (doubled marks s) s := by
  induction s with
  | nil => exact .nil
  | cons b rest ih =>
      rw [doubled, List.flatMap_cons]
      split
      · rename_i hb
        subst hb
        exact .literal ih
      · exact .plain ‹_› ih

theorem read_doubled (marks : Marks α) (s : List α) :
    read marks (doubled marks s) = ⟨s, .whole⟩ := by
  have h := read_units (units_doubled marks s) []
  rwa [List.append_nil, read_nil, Reading.after, List.append_nil] at h

end Vnctlsd.Library.Escapes
