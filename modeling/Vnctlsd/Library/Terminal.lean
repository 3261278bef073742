import Mathlib.Data.List.Basic

/-! One line of a terminal: a glyph is written over the cell at the cursor, and the
cursor moves past it or back. -/
namespace Vnctlsd.Library.Terminal

variable {α : Type u} {blank : α}

/-- The cells before the cursor, and those from the cursor on. -/
structure Line (α : Type u) where
  before : List α
  after : List α
  deriving DecidableEq

inductive Key (α : Type u) where
  | glyph (cell : α)
  | back
  deriving DecidableEq

/-- The cursor does not move back from the first column. -/
def Line.press (line : Line α) : Key α → Line α
  | .glyph cell => ⟨line.before ++ [cell], line.after.tail⟩
  | .back =>
      match line.before.getLast? with
      | none => line
      | some cell => ⟨line.before.dropLast, cell :: line.after⟩

def Line.pressAll (line : Line α) (keys : List (Key α)) : Line α := keys.foldl Line.press line

theorem Line.pressAll_append (line : Line α) (first second : List (Key α)) :
    line.pressAll (first ++ second) = (line.pressAll first).pressAll second :=
  List.foldl_append

theorem Line.press_back (before after : List α) (cell : α) :
    (Line.mk (before ++ [cell]) after).press .back = ⟨before, cell :: after⟩ := by
  rw [Line.press, List.getLast?_concat]
  simp only [List.dropLast_concat]

/-- The text stands before the cursor and nothing stands behind it. -/
structure Shows (blank : α) (line : Line α) (text : List α) : Prop where
  before : line.before = text
  after : ∀ cell ∈ line.after, cell = blank

theorem Shows.glyph {line : Line α} {text : List α} (h : Shows blank line text) (cell : α) :
    Shows blank (line.press (.glyph cell)) (text ++ [cell]) where
  before := congrArg (· ++ [cell]) h.before
  after other hother := h.after other (List.mem_of_mem_tail hother)

/-- Back, a blank over the last glyph, and back again. -/
def wipe (blank : α) : List (Key α) := [.back, .glyph blank, .back]

theorem Shows.wipe {line : Line α} {text : List α} {cell : α}
    (h : Shows blank line (text ++ [cell])) :
    Shows blank (line.pressAll (wipe blank)) text := by
  obtain ⟨before, after⟩ := line
  obtain ⟨rfl, hafter⟩ := h
  have hpressed : (Line.mk (text ++ [cell]) after).pressAll (Terminal.wipe blank) =
      ⟨text, blank :: after⟩ := by
    rw [Line.pressAll, Terminal.wipe, List.foldl_cons, Line.press_back, List.foldl_cons]
    exact Line.press_back text after blank
  rw [hpressed]
  exact ⟨rfl, List.forall_mem_cons.mpr ⟨rfl, hafter⟩⟩

end Vnctlsd.Library.Terminal
