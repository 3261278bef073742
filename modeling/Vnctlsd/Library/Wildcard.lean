import Mathlib.Data.List.Forall2
import Mathlib.Data.List.Infix

/-! Patterns of wildcards for one symbol and for any number of them, and the texts they
cover from end to end. -/
namespace Vnctlsd.Library.Wildcard

inductive Slot (α : Type u) where
  | many
  | one (accepts : α → Bool)

variable {α : Type u}

inductive Covers : List (Slot α) → List α → Prop where
  | nil : Covers [] []
  | many {rest : List (Slot α)} {text : List α} (front : List α) :
      Covers rest text → Covers (.many :: rest) (front ++ text)
  | one {accepts : α → Bool} {rest : List (Slot α)} {symbol : α} {text : List α} :
      accepts symbol = true → Covers rest text → Covers (.one accepts :: rest) (symbol :: text)

theorem covers_many_iff {rest : List (Slot α)} {text : List α} :
    Covers (.many :: rest) text ↔ ∃ suffix ∈ text.tails, Covers rest suffix := by
  constructor
  · intro h
    cases h with
    | many front h => exact ⟨_, (List.mem_tails ..).mpr (List.suffix_append ..), h⟩
  · rintro ⟨suffix, hmem, h⟩
    obtain ⟨front, rfl⟩ := (List.mem_tails ..).mp hmem
    exact .many front h

theorem covers_append_iff {left right : List (Slot α)} {text : List α} :
    Covers (left ++ right) text ↔
      ∃ front back, text = front ++ back ∧ Covers left front ∧ Covers right back := by
  constructor
  · intro h
    induction left generalizing text with
    | nil => exact ⟨[], text, rfl, .nil, h⟩
    | cons wildcard rest ih =>
        cases h with
        | many start h =>
            obtain ⟨front, back, rfl, hfront, hback⟩ := ih h
            exact ⟨start ++ front, back, (List.append_assoc ..).symm, .many start hfront, hback⟩
        | @one _ _ symbol _ haccepts h =>
            obtain ⟨front, back, rfl, hfront, hback⟩ := ih h
            exact ⟨symbol :: front, back, rfl, .one haccepts hfront, hback⟩
  · rintro ⟨front, back, rfl, hfront, hback⟩
    induction hfront with
    | nil => exact hback
    | many start _ ih =>
        rw [List.append_assoc]
        exact .many start ih
    | one haccepts _ ih => exact .one haccepts ih

/-- Wildcards for one symbol each cover a text of their number. -/
theorem covers_ones_iff {ones : List (α → Bool)} {text : List α} :
    Covers (ones.map .one) text ↔
      List.Forall₂ (fun accepts symbol => accepts symbol = true) ones text := by
  constructor
  · intro h
    induction ones generalizing text with
    | nil =>
        cases h
        exact .nil
    | cons accepts rest ih =>
        cases h with
        | one haccepts h => exact .cons haccepts (ih h)
  · intro h
    induction h with
    | nil => exact .nil
    | cons haccepts _ ih => exact .one haccepts ih

end Vnctlsd.Library.Wildcard
