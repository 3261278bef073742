import Mathlib.Data.List.Basic

/-! Merges of two sequences, and words that commute: they are powers of one word,
so a word that is no proper power commutes with its own powers only. -/
namespace Vnctlsd.Library.Words

variable {α : Type u}

/-- `Merge left right merged`: both sequences in their own order, and nothing else. -/
inductive Merge : List α → List α → List α → Prop where
  | nil : Merge [] [] []
  | left {a : α} {left right merged : List α} : Merge left right merged →
      Merge (a :: left) right (a :: merged)
  | right {a : α} {left right merged : List α} : Merge left right merged →
      Merge left (a :: right) (a :: merged)

theorem Merge.swap {left right merged : List α} (h : Merge left right merged) :
    Merge right left merged := by
  induction h with
  | nil => exact .nil
  | left _ ih => exact .right ih
  | right _ ih => exact .left ih

theorem merge_nil_right (left : List α) : Merge left [] left := by
  induction left with
  | nil => exact .nil
  | cons a left ih => exact .left ih

theorem Merge.prepend {left right merged : List α} (h : Merge left right merged)
    (front : List α) : Merge (front ++ left) right (front ++ merged) := by
  induction front with
  | nil => exact h
  | cons a front ih => exact .left ih

/-- One sequence may come whole anywhere inside the other. -/
theorem merge_inside (front back inner : List α) :
    Merge (front ++ back) inner (front ++ inner ++ back) := by
  have h := (merge_nil_right back).swap.prepend inner
  rw [List.append_nil] at h
  rw [List.append_assoc]
  exact h.swap.prepend front

theorem merge_nil_left_iff {right merged : List α} : Merge [] right merged ↔ merged = right := by
  constructor
  · intro h
    generalize hleft : ([] : List α) = left at h
    induction h with
    | nil => rfl
    | left => cases hleft
    | right _ ih => rw [ih hleft]
  · rintro rfl
    exact (merge_nil_right merged).swap

theorem merge_singletons {a b : α} {merged : List α} (h : Merge [a] [b] merged) :
    merged = [a, b] ∨ merged = [b, a] := by
  cases h with
  | left h => exact .inl (by rw [merge_nil_left_iff.mp h])
  | right h => exact .inr (by rw [merge_nil_left_iff.mp h.swap])

def power (w : List α) (n : Nat) : List α := (List.replicate n w).flatten

@[simp] theorem power_zero (w : List α) : power w 0 = [] := rfl

@[simp] theorem power_one (w : List α) : power w 1 = w := List.append_nil w

theorem power_succ (w : List α) (n : Nat) : power w (n + 1) = w ++ power w n := rfl

theorem power_add (w : List α) (m n : Nat) : power w (m + n) = power w m ++ power w n := by
  rw [power, List.replicate_add, List.flatten_append]
  rfl

theorem length_power (w : List α) (n : Nat) : (power w n).length = n * w.length := by
  induction n with
  | zero => simp
  | succ n ih => rw [power_succ, List.length_append, ih, Nat.succ_mul, Nat.add_comm]

/-- Two words that commute are powers of one word.  The longer one begins with the
shorter, and the rest commutes with it again. -/
theorem powers_of_commute {u v : List α} (h : u ++ v = v ++ u) :
    ∃ w i j, u = power w i ∧ v = power w j := by
  induction hn : u.length + v.length using Nat.strongRecOn generalizing u v with
  | ind n ih =>
      wlog hle : u.length ≤ v.length generalizing u v
      · obtain ⟨w, i, j, hv, hu⟩ := this h.symm (by omega) (by omega)
        exact ⟨w, j, i, hu, hv⟩
      rcases eq_or_ne u [] with rfl | hne
      · exact ⟨v, 0, 1, rfl, (power_one v).symm⟩
      · obtain ⟨t, rfl⟩ : u <+: v :=
          List.prefix_of_prefix_length_le (List.prefix_append u v) (h ▸ List.prefix_append v u) hle
        rw [List.append_assoc] at h
        have hrest : u ++ t = t ++ u := List.append_cancel_left h
        have hpos := List.length_pos_iff.mpr hne
        rw [List.length_append] at hn
        obtain ⟨w, i, j, hu, ht⟩ := ih (u.length + t.length) (by omega) hrest rfl
        exact ⟨w, i, i + j, hu, by rw [power_add, ← hu, ← ht]⟩

def Primitive (a : List α) : Prop := ∀ w n, a = power w n → n = 1

theorem Primitive.power_of_commute {a u : List α} (ha : Primitive a) (h : a ++ u = u ++ a) :
    ∃ n, u = power a n := by
  obtain ⟨w, i, j, hi, hj⟩ := powers_of_commute h
  obtain rfl := ha w i hi
  rw [power_one] at hi
  exact ⟨j, by rw [hi, hj]⟩

end Vnctlsd.Library.Words
