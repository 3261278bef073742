import Mathlib.Data.List.Perm.Subperm
import Vnctlsd.Library.Dict

/-! How many entries of a dictionary have a value of a kind. -/
namespace Vnctlsd.Library.Dict

variable {κ : Type u} {β : Type v}

def tally (d : Dict κ β) (p : β → Bool) : Nat := d.entries.countP fun entry => p entry.2

variable [DecidableEq κ] {d : Dict κ β} {p : β → Bool}

theorem tally_set_new {key : κ} {v : β} (h : d.get? key = none) :
    (d.set key v).tally p = d.tally p + if p v then 1 else 0 := by
  have hkey : key ∉ d.keys := fun hmem => by
    obtain ⟨old, hold⟩ := exists_of_mem_keys hmem
    rw [h] at hold
    cases hold
  rw [tally, set, dif_neg hkey, List.countP_append, List.countP_singleton]
  rfl

/-- Only the entry of the key changes sides. -/
theorem tally_set {key : κ} {old v : β} (h : d.get? key = some old) :
    (d.set key v).tally p + (if p old then 1 else 0) =
      d.tally p + if p v then 1 else 0 := by
  have hmem := get?_eq_some_iff.mp h
  rw [tally, set, dif_pos (mem_keys_of_mem hmem), modify, tally]
  obtain ⟨entries, hnodup⟩ := d
  dsimp only at hmem ⊢
  clear h
  induction entries with
  | nil => cases hmem
  | cons entry rest ih =>
      rw [List.map_cons, List.nodup_cons] at hnodup
      rw [List.map_cons, List.countP_cons, List.countP_cons]
      rcases List.mem_cons.mp hmem with rfl | hrest
      · have hothers : rest.map (fun entry => if entry.1 = key then (entry.1, v) else entry) =
            rest := by
          refine (List.map_congr_left fun other hother => if_neg fun heq => ?_).trans rest.map_id
          have hmap : other.1 ∈ rest.map Prod.fst := List.mem_map_of_mem hother
          exact hnodup.1 (heq ▸ hmap)
        rw [hothers, if_pos rfl]
        dsimp only
        omega
      · have hne : entry.1 ≠ key := fun heq => by
          have hmap : key ∈ rest.map Prod.fst := List.mem_map.mpr ⟨_, hrest, rfl⟩
          exact hnodup.1 (heq ▸ hmap)
        rw [if_neg hne]
        have := ih hnodup.2 hrest
        omega

theorem length_le_tally {keys : List κ} (hnodup : keys.Nodup)
    (hkind : ∀ key ∈ keys, ∃ value, d.get? key = some value ∧ p value = true) :
    keys.length ≤ d.tally p := by
  rw [tally, List.countP_eq_length_filter, ← List.length_map Prod.fst]
  refine (hnodup.subperm fun key hkey => ?_).length_le
  obtain ⟨value, hvalue, htrue⟩ := hkind key hkey
  exact List.mem_map.mpr ⟨_, List.mem_filter.mpr ⟨get?_eq_some_iff.mp hvalue, htrue⟩, rfl⟩

end Vnctlsd.Library.Dict
