import Mathlib.Logic.Function.Basic

/-! A table of numbered handles whose numbers are reused, and the claims that
parties make on its entries.  The rules below are the ways in which a claim may
come into being, change hands and end without disturbing any other. -/
namespace Vnctlsd.Library.Handles
open Function

variable {ρ : Type u} {ι : Type v}

/-- Every claim is on an open entry, for what it stands for, and no two claims
are on one number. -/
structure Owned (table : Nat → Option ρ) (claims : ι → Option (Nat × ρ)) : Prop where
  isOpen : ∀ {c n r}, claims c = some (n, r) → table n = some r
  unique : ∀ {c c' n r r'}, claims c = some (n, r) → claims c' = some (n, r') → c = c'

variable {table : Nat → Option ρ} {claims : ι → Option (Nat × ρ)} [DecidableEq ι]

theorem Owned.acquire (h : Owned table claims) {n : Nat} (hfree : table n = none) (c : ι)
    (r : ρ) : Owned (update table n (some r)) (update claims c (some (n, r))) where
  isOpen := by
    intro c' n' r' hc'
    by_cases heq : c' = c
    · subst heq
      rw [update_self] at hc'
      cases hc'
      exact update_self ..
    · rw [update_of_ne heq] at hc'
      have hopen := h.isOpen hc'
      have hne : n' ≠ n := by
        rintro rfl
        rw [hfree] at hopen
        cases hopen
      rw [update_of_ne hne, hopen]
  unique := by
    intro c₁ c₂ n' r₁ r₂ h₁ h₂
    by_cases heq₁ : c₁ = c
    · by_cases heq₂ : c₂ = c
      · rw [heq₁, heq₂]
      · rw [heq₁, update_self] at h₁
        rw [update_of_ne heq₂] at h₂
        cases h₁
        rw [h.isOpen h₂] at hfree
        cases hfree
    · rw [update_of_ne heq₁] at h₁
      by_cases heq₂ : c₂ = c
      · rw [heq₂, update_self] at h₂
        cases h₂
        rw [h.isOpen h₁] at hfree
        cases hfree
      · rw [update_of_ne heq₂] at h₂
        exact h.unique h₁ h₂

theorem Owned.release (h : Owned table claims) {c : ι} {n : Nat} {r : ρ}
    (hc : claims c = some (n, r)) : Owned (update table n none) (update claims c none) where
  isOpen := by
    intro c' n' r' hc'
    by_cases heq : c' = c
    · rw [heq, update_self] at hc'
      cases hc'
    · rw [update_of_ne heq] at hc'
      have hne : n' ≠ n := by
        rintro rfl
        exact heq (h.unique hc' hc)
      rw [update_of_ne hne, h.isOpen hc']
  unique := by
    intro c₁ c₂ n' r₁ r₂ h₁ h₂
    have hold : ∀ {c' r'}, update claims c none c' = some (n', r') → claims c' = some (n', r') := by
      intro c' r' hc'
      by_cases heq : c' = c
      · rw [heq, update_self] at hc'
        cases hc'
      · rwa [update_of_ne heq] at hc'
    exact h.unique (hold h₁) (hold h₂)

theorem Owned.transfer (h : Owned table claims) {c c' : ι} {n : Nat} {r : ρ}
    (hc : claims c = some (n, r)) :
    Owned table (update (update claims c none) c' (some (n, r))) := by
  have hcases : ∀ {d m s}, update (update claims c none) c' (some (n, r)) d = some (m, s) →
      (d = c' ∧ m = n ∧ s = r) ∨ (d ≠ c ∧ claims d = some (m, s)) := by
    intro d m s hd
    by_cases hd' : d = c'
    · rw [hd', update_self] at hd
      cases hd
      exact .inl ⟨hd', rfl, rfl⟩
    · rw [update_of_ne hd'] at hd
      by_cases hdc : d = c
      · rw [hdc, update_self] at hd
        cases hd
      · rw [update_of_ne hdc] at hd
        exact .inr ⟨hdc, hd⟩
  constructor
  · intro d m s hd
    obtain ⟨-, rfl, rfl⟩ | ⟨-, hd⟩ := hcases hd
    · exact h.isOpen hc
    · exact h.isOpen hd
  · intro d d' m s s' hd hd'
    rcases hcases hd with ⟨hdc, hm, -⟩ | ⟨hne, hclaim⟩
    · rcases hcases hd' with ⟨hdc', -, -⟩ | ⟨hne', hclaim'⟩
      · rw [hdc, hdc']
      · exact absurd (h.unique (hm ▸ hclaim') hc) hne'
    · rcases hcases hd' with ⟨-, hm, -⟩ | ⟨-, hclaim'⟩
      · exact absurd (h.unique (hm ▸ hclaim) hc) hne
      · exact h.unique hclaim hclaim'

end Vnctlsd.Library.Handles
