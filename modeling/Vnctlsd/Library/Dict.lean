import Mathlib.Data.List.Nodup

/-! Dictionaries in insertion order, with distinct keys by construction. -/
namespace Vnctlsd.Library

structure Dict (κ : Type u) (β : Type v) where
  entries : List (κ × β)
  nodup : (entries.map Prod.fst).Nodup

theorem mem_of_lookup [BEq κ] [LawfulBEq κ] {entries : List (κ × β)} {key : κ} {value : β}
    (h : entries.lookup key = some value) : (key, value) ∈ entries := by
  obtain ⟨before, after, hentries, -⟩ := List.lookup_eq_some_iff.mp h
  rw [hentries]
  exact List.mem_append_right _ (List.mem_cons_self ..)

namespace Dict

variable {κ : Type u} {β : Type v}

def empty : Dict κ β := ⟨[], List.nodup_nil⟩

def keys (d : Dict κ β) : List κ := d.entries.map Prod.fst

theorem mem_keys_of_mem {d : Dict κ β} {key : κ} {value : β}
    (h : (key, value) ∈ d.entries) : key ∈ d.keys :=
  List.mem_map.mpr ⟨_, h, rfl⟩

theorem mem_keys {d : Dict κ β} {key : κ} : key ∈ d.keys ↔ ∃ value, (key, value) ∈ d.entries := by
  simp [keys]

theorem nodup_keys (d : Dict κ β) : d.keys.Nodup := d.nodup

theorem value_unique {d : Dict κ β} {key : κ} {left right : β}
    (hleft : (key, left) ∈ d.entries) (hright : (key, right) ∈ d.entries) : left = right :=
  congrArg Prod.snd (List.inj_on_of_nodup_map d.nodup hleft hright rfl)

variable [DecidableEq κ]

def get? (d : Dict κ β) (key : κ) : Option β := d.entries.lookup key

theorem get?_eq_some_iff {d : Dict κ β} {key : κ} {value : β} :
    d.get? key = some value ↔ (key, value) ∈ d.entries := by
  constructor
  · intro h
    exact mem_of_lookup h
  · intro hmem
    cases hget : d.get? key with
    | none =>
        have hne := List.lookup_eq_none_iff.mp hget _ hmem
        exact absurd rfl (bne_iff_ne.mp hne)
    | some other =>
        rw [value_unique (mem_of_lookup hget) hmem]

theorem exists_of_mem_keys {d : Dict κ β} {key : κ} (h : key ∈ d.keys) :
    ∃ value, d.get? key = some value := by
  obtain ⟨entry, hmem, rfl⟩ := List.mem_map.mp h
  exact ⟨entry.2, get?_eq_some_iff.mpr hmem⟩

def modify (d : Dict κ β) (key : κ) (f : β → β) : Dict κ β where
  entries := d.entries.map fun entry => if entry.1 = key then (entry.1, f entry.2) else entry
  nodup := by
    rw [List.map_map]
    refine (congrArg List.Nodup (List.map_congr_left fun entry _ => ?_)).mpr d.nodup
    dsimp only [Function.comp]
    split <;> rfl

/-- A new key goes to the end, a known one keeps its place. -/
def set (d : Dict κ β) (key : κ) (value : β) : Dict κ β :=
  if h : key ∈ d.keys then d.modify key fun _ => value
  else ⟨d.entries ++ [(key, value)], by
    rw [List.map_append, List.nodup_append]
    refine ⟨d.nodup, List.nodup_singleton _, ?_⟩
    intro left hleft right hright heq
    have hkey : right = key := by simpa using hright
    exact h (by rwa [← hkey, ← heq])⟩

def erase (d : Dict κ β) (key : κ) : Dict κ β where
  entries := d.entries.filter fun entry => entry.1 ≠ key
  nodup := d.nodup.sublist (List.filter_sublist.map Prod.fst)

def eraseMany (d : Dict κ β) (keys : List κ) : Dict κ β := keys.foldl erase d

@[simp] theorem keys_modify (d : Dict κ β) (key : κ) (f : β → β) :
    (d.modify key f).keys = d.keys := by
  unfold keys modify
  rw [List.map_map]
  apply List.map_congr_left
  intro entry _
  dsimp only [Function.comp]
  split <;> rfl

theorem keys_set (d : Dict κ β) (key : κ) (value : β) :
    (d.set key value).keys = if key ∈ d.keys then d.keys else d.keys ++ [key] := by
  unfold set
  split
  · exact keys_modify d key _
  · exact List.map_append

theorem get?_modify (d : Dict κ β) (key other : κ) (f : β → β) :
    (d.modify key f).get? other = if other = key then (d.get? other).map f else d.get? other := by
  apply Option.ext
  intro found
  rw [get?_eq_some_iff]
  simp only [modify, List.mem_map]
  constructor
  · rintro ⟨⟨known, value⟩, hmem, heq⟩
    dsimp only at heq
    split at heq
    · rename_i hknown
      obtain ⟨rfl, rfl⟩ := Prod.mk.inj heq
      rw [if_pos hknown, get?_eq_some_iff.mpr hmem]
      rfl
    · rename_i hknown
      obtain ⟨rfl, rfl⟩ := Prod.mk.inj heq
      rw [if_neg hknown, get?_eq_some_iff.mpr hmem]
  · intro h
    split at h
    · rename_i hother
      obtain ⟨value, hvalue, rfl⟩ := Option.map_eq_some_iff.mp h
      exact ⟨(other, value), get?_eq_some_iff.mp hvalue, if_pos hother⟩
    · rename_i hother
      exact ⟨(other, found), get?_eq_some_iff.mp h, if_neg hother⟩

theorem mem_set {d : Dict κ β} {key : κ} {value : β} {entry : κ × β} :
    entry ∈ (d.set key value).entries ↔
      entry = (key, value) ∨ entry.1 ≠ key ∧ entry ∈ d.entries := by
  unfold set
  split
  · rename_i hkey
    obtain ⟨old, hold⟩ := exists_of_mem_keys hkey
    simp only [modify, List.mem_map]
    constructor
    · rintro ⟨entry, hmem, rfl⟩
      split
      · rename_i heq
        exact .inl (by rw [heq])
      · exact .inr ⟨‹_›, hmem⟩
    · rintro (rfl | ⟨hne, hmem⟩)
      · exact ⟨(key, old), get?_eq_some_iff.mp hold, if_pos rfl⟩
      · exact ⟨entry, hmem, if_neg hne⟩
  · rename_i hkey
    simp only [List.mem_append, List.mem_singleton]
    constructor
    · rintro (hmem | rfl)
      · refine .inr ⟨?_, hmem⟩
        rintro rfl
        exact hkey (List.mem_map_of_mem hmem)
      · exact .inl rfl
    · rintro (rfl | ⟨-, hmem⟩)
      · exact .inr rfl
      · exact .inl hmem

theorem get?_set (d : Dict κ β) (key : κ) (value : β) (other : κ) :
    (d.set key value).get? other = if other = key then some value else d.get? other := by
  apply Option.ext
  intro found
  rw [get?_eq_some_iff, mem_set]
  by_cases hkey : other = key
  · simp [hkey, eq_comm]
  · simp [hkey, get?_eq_some_iff]

theorem mem_erase {d : Dict κ β} {key : κ} {entry : κ × β} :
    entry ∈ (d.erase key).entries ↔ entry ∈ d.entries ∧ entry.1 ≠ key := by
  simp [erase]

theorem get?_erase (d : Dict κ β) (key other : κ) :
    (d.erase key).get? other = if other = key then none else d.get? other := by
  apply Option.ext
  intro found
  rw [get?_eq_some_iff, mem_erase]
  by_cases hkey : other = key
  · simp [hkey]
  · simp [hkey, get?_eq_some_iff]

theorem keys_erase (d : Dict κ β) (key : κ) :
    (d.erase key).keys = d.keys.filter fun other => other ≠ key := by
  unfold keys erase
  rw [List.filter_map]
  rfl

theorem keys_eraseMany (d : Dict κ β) (keys : List κ) :
    (d.eraseMany keys).keys = keys.foldl (fun left key => left.filter fun k => k ≠ key) d.keys := by
  induction keys generalizing d with
  | nil => rfl
  | cons key keys ih =>
      rw [List.foldl_cons, ← keys_erase]
      exact ih (d.erase key)

theorem entries_eraseMany (d : Dict κ β) (keys : List κ) :
    (d.eraseMany keys).entries = d.entries.filter fun entry => entry.1 ∉ keys := by
  induction keys generalizing d with
  | nil => simp [eraseMany]
  | cons key keys ih =>
      have hstep : d.eraseMany (key :: keys) = (d.erase key).eraseMany keys := rfl
      rw [hstep, ih, erase, List.filter_filter]
      apply List.filter_congr
      intro entry _
      simp [not_or, Bool.and_comm]

theorem mem_eraseMany {d : Dict κ β} {keys : List κ} {entry : κ × β} :
    entry ∈ (d.eraseMany keys).entries ↔ entry ∈ d.entries ∧ entry.1 ∉ keys := by
  rw [entries_eraseMany]
  simp

theorem get?_eraseMany (d : Dict κ β) (keys : List κ) (other : κ) :
    (d.eraseMany keys).get? other = if other ∈ keys then none else d.get? other := by
  apply Option.ext
  intro found
  rw [get?_eq_some_iff, mem_eraseMany]
  by_cases hkey : other ∈ keys
  · simp [hkey]
  · simp [hkey, get?_eq_some_iff]

/-- The entries of one key: the value it has, if any. -/
theorem filter_key (d : Dict κ β) (key : κ) :
    (d.entries.filter fun entry => entry.1 = key) =
      (d.get? key).toList.map fun value => (key, value) := by
  unfold get?
  obtain ⟨entries, hnodup⟩ := d
  dsimp only
  induction entries with
  | nil => rfl
  | cons entry rest ih =>
      rw [List.map_cons, List.nodup_cons] at hnodup
      rw [List.filter_cons, List.lookup_cons]
      by_cases hkey : entry.1 = key
      · have hrest : (rest.filter fun other => other.1 = key) = [] := by
          rw [List.filter_eq_nil_iff]
          intro other hother heq
          refine hnodup.1 (hkey ▸ ?_)
          exact of_decide_eq_true heq ▸ List.mem_map_of_mem hother
        rw [if_pos (decide_eq_true hkey), hrest, beq_iff_eq.mpr hkey.symm, ← hkey]
        rfl
      · rw [if_neg (by simpa using hkey), ih hnodup.2, beq_false_of_ne (Ne.symm hkey)]

/-- What is erased anyway may be set before, -/
theorem entries_eraseMany_set (d : Dict κ β) {key : κ} {keys : List κ} (h : key ∈ keys)
    (value : β) : ((d.set key value).eraseMany keys).entries = (d.eraseMany keys).entries := by
  rw [entries_eraseMany, entries_eraseMany]
  unfold set
  split
  · unfold modify
    dsimp only
    generalize d.entries = entries
    induction entries with
    | nil => rfl
    | cons entry rest ih =>
        rw [List.map_cons, List.filter_cons, List.filter_cons, ih]
        by_cases hkey : entry.1 = key
        · rw [if_pos hkey, hkey, decide_eq_false (not_not_intro h), if_neg Bool.false_ne_true,
            if_neg Bool.false_ne_true]
        · rw [if_neg hkey]
  · simp [h]

/-- or erased before. -/
theorem entries_eraseMany_erase (d : Dict κ β) {key : κ} {keys : List κ} (h : key ∈ keys) :
    ((d.erase key).eraseMany keys).entries = (d.eraseMany keys).entries := by
  rw [entries_eraseMany, entries_eraseMany]
  unfold erase
  dsimp only
  rw [List.filter_filter]
  refine List.filter_congr fun entry _ => ?_
  by_cases hkey : entry.1 = key
  · simp [hkey, h]
  · simp [hkey]

theorem mem_keys_set {d : Dict κ β} {key other : κ} {value : β} :
    other ∈ (d.set key value).keys ↔ other = key ∨ other ∈ d.keys := by
  simp only [mem_keys, mem_set, Prod.mk.injEq]
  by_cases hkey : other = key <;> simp [hkey]

theorem mem_keys_erase {d : Dict κ β} {key other : κ} :
    other ∈ (d.erase key).keys ↔ other ∈ d.keys ∧ other ≠ key := by
  rw [keys_erase, List.mem_filter]
  simp

theorem mem_keys_eraseMany {d : Dict κ β} {keys : List κ} {other : κ} :
    other ∈ (d.eraseMany keys).keys ↔ other ∈ d.keys ∧ other ∉ keys := by
  simp only [mem_keys, mem_eraseMany, exists_and_right]

end Dict

end Vnctlsd.Library
