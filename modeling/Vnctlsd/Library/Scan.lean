import Mathlib.Data.List.Basic

/-! A search that ends at the first element with an answer, and the same search
over a copy of the list from which elements are missing. -/
namespace Vnctlsd.Library.Scan

variable {ε α α' β β' : Type}

/-- The first item that does not pass the search on: it answers or raises. -/
def Decides (f : α → Except ε (Option β)) (items : List α) (item : α) : Prop :=
  ∃ before after, items = before ++ item :: after ∧
    (∀ earlier ∈ before, f earlier = .ok none) ∧ f item ≠ .ok none

/-- Both searches find nothing, or related things, or raise the same. -/
inductive Alike (R : β → β' → Prop) : Except ε (Option β) → Except ε (Option β') → Prop where
  | missed : Alike R (.ok none) (.ok none)
  | found {answer : β} {answer' : β'} (h : R answer answer') :
      Alike R (.ok (some answer)) (.ok (some answer'))
  | raised (e : ε) : Alike R (.error e) (.error e)

/-- A copy of a list: items that are kept in some form, and items that are gone or
have become mute. -/
inductive Copied (g : α' → Except ε (Option β')) (Kept : α → α' → Prop) (Lost : α → Prop) :
    List α → List α' → Prop where
  | nil : Copied g Kept Lost [] []
  | kept {item : α} {copy : α'} {items : List α} {copies : List α'} (h : Kept item copy)
      (rest : Copied g Kept Lost items copies) : Copied g Kept Lost (item :: items) (copy :: copies)
  | gone {item : α} {items : List α} {copies : List α'} (h : Lost item)
      (rest : Copied g Kept Lost items copies) : Copied g Kept Lost (item :: items) copies
  | mute {item : α} {copy : α'} {items : List α} {copies : List α'} (h : Lost item)
      (hmute : g copy = .ok none) (rest : Copied g Kept Lost items copies) :
      Copied g Kept Lost (item :: items) (copy :: copies)

/-- A kept item decides as its copy does, and its answer is related to the copy's
exactly where it is good; no copy gives what a lost item would have given. -/
structure Faithful (keep : α → Bool) (good : α → Prop) (R : β → β' → Prop)
    (f : α → Except ε (Option β)) (g : α' → Except ε (Option β'))
    (Kept : α → α' → Prop) (Lost : α → Prop) : Prop where
  kept : ∀ {item copy}, Kept item copy → keep item = true
  alike : ∀ {item copy}, Kept item copy →
    Alike (fun answer answer' => R answer answer' ↔ good item) (f item) (g copy)
  lost : ∀ {item}, Lost item → keep item = false
  clash : ∀ {item other copy answer answer'}, Lost item → f item = .ok (some answer) →
    Kept other copy → g copy = .ok (some answer') → ¬ R answer answer'

/-- The item that decides is a kept and good one; or it raises, and the kept items
alone raise the same. -/
def Survives (keep : α → Bool) (good : α → Prop) (f : α → Except ε (Option β))
    (items : List α) : Prop :=
  ∀ item, Decides f items item →
    match f item with
    | .ok _ => keep item = true ∧ good item
    | .error e => (items.filter keep).findSomeM? f = .error e

section

variable {f : α → Except ε (Option β)} {item : α}

theorem find_of_missed (h : f item = .ok none) (items : List α) :
    (item :: items).findSomeM? f = items.findSomeM? f := by
  rw [List.findSomeM?, h]
  rfl

theorem find_of_found {answer : β} (h : f item = .ok (some answer)) (items : List α) :
    (item :: items).findSomeM? f = .ok (some answer) := by
  rw [List.findSomeM?, h]
  rfl

theorem find_of_raised {e : ε} (h : f item = .error e) (items : List α) :
    (item :: items).findSomeM? f = .error e := by
  rw [List.findSomeM?, h]
  rfl

theorem decides_cons_of_missed (h : f item = .ok none) {items : List α} {other : α} :
    Decides f (item :: items) other ↔ Decides f items other := by
  constructor
  · rintro ⟨before, after, heq, hbefore, hother⟩
    cases before with
    | nil =>
        cases heq
        exact absurd h hother
    | cons first before =>
        cases heq
        exact ⟨before, after, rfl, (List.forall_mem_cons.mp hbefore).2, hother⟩
  · rintro ⟨before, after, rfl, hbefore, hother⟩
    exact ⟨item :: before, after, rfl, List.forall_mem_cons.mpr ⟨h, hbefore⟩, hother⟩

theorem decides_cons_of_decided (h : f item ≠ .ok none) {items : List α} {other : α} :
    Decides f (item :: items) other ↔ other = item := by
  constructor
  · rintro ⟨before, after, heq, hbefore, hother⟩
    cases before with
    | nil =>
        cases heq
        rfl
    | cons first before =>
        cases heq
        exact absurd (hbefore item (List.mem_cons_self ..)) h
  · rintro rfl
    exact ⟨[], items, rfl, nofun, h⟩

variable {keep : α → Bool} {good : α → Prop}

theorem find_filter_of_missed (h : f item = .ok none) (items : List α) :
    ((item :: items).filter keep).findSomeM? f = (items.filter keep).findSomeM? f := by
  rw [List.filter_cons]
  split
  · exact find_of_missed h _
  · rfl

theorem survives_of_missed (h : f item = .ok none) (items : List α) :
    Survives keep good f (item :: items) ↔ Survives keep good f items := by
  simp only [Survives, decides_cons_of_missed h, find_filter_of_missed h]

theorem survives_of_found {answer : β} (h : f item = .ok (some answer)) (items : List α) :
    Survives keep good f (item :: items) ↔ keep item = true ∧ good item := by
  have hdecided : f item ≠ .ok none := by simp [h]
  simp only [Survives, decides_cons_of_decided hdecided, forall_eq, h]

theorem survives_of_raised {e : ε} (h : f item = .error e) (items : List α) :
    Survives keep good f (item :: items) ↔
      ((item :: items).filter keep).findSomeM? f = .error e := by
  have hdecided : f item ≠ .ok none := by simp [h]
  simp only [Survives, decides_cons_of_decided hdecided, forall_eq, h]

end

section

variable {keep : α → Bool} {good : α → Prop} {R : β → β' → Prop}
  {f : α → Except ε (Option β)} {g : α' → Except ε (Option β')}
  {Kept : α → α' → Prop} {Lost : α → Prop}

theorem Copied.append {items others : List α} {copies copies' : List α'}
    (h : Copied g Kept Lost items copies) (h' : Copied g Kept Lost others copies') :
    Copied g Kept Lost (items ++ others) (copies ++ copies') := by
  induction h with
  | nil => exact h'
  | kept hitem _ ih => exact .kept hitem ih
  | gone hitem _ ih => exact .gone hitem ih
  | mute hitem hmute _ ih => exact .mute hitem hmute ih

theorem Copied.map {γ γ' : Type} {g' : γ' → Except ε (Option β')} {Kept' : γ → γ' → Prop}
    {Lost' : γ → Prop} {into : α → γ} {into' : α' → γ'} {items : List α} {copies : List α'}
    (h : Copied g Kept Lost items copies)
    (hkept : ∀ {item copy}, Kept item copy → Kept' (into item) (into' copy))
    (hlost : ∀ {item}, Lost item → Lost' (into item))
    (hmute : ∀ {copy}, g copy = .ok none → g' (into' copy) = .ok none) :
    Copied g' Kept' Lost' (items.map into) (copies.map into') := by
  induction h with
  | nil => exact .nil
  | kept hitem _ ih => exact .kept (hkept hitem) ih
  | gone hitem _ ih => exact .gone (hlost hitem) ih
  | mute hitem hsilent _ ih => exact .mute (hlost hitem) (hmute hsilent) ih

/-- The copy is searched as the kept items alone are. -/
theorem Faithful.mirror (h : Faithful keep good R f g Kept Lost) {items : List α}
    {copies : List α'} (hcopied : Copied g Kept Lost items copies) :
    Alike (fun _ answer' => ∃ other copy, Kept other copy ∧ g copy = .ok (some answer'))
      ((items.filter keep).findSomeM? f) (copies.findSomeM? g) := by
  induction hcopied with
  | nil => exact .missed
  | @kept item copy items copies hitem rest ih =>
      have halike := h.alike hitem
      rw [List.filter_cons_of_pos (h.kept hitem)]
      generalize hf : f item = outcome at halike
      generalize hg : g copy = outcome' at halike
      cases halike with
      | missed =>
          rw [find_of_missed hf, find_of_missed hg]
          exact ih
      | found hanswer =>
          rw [find_of_found hf, find_of_found hg]
          exact .found ⟨item, copy, hitem, hg⟩
      | raised e =>
          rw [find_of_raised hf, find_of_raised hg]
          exact .raised e
  | gone hitem _ ih =>
      rw [List.filter_cons_of_neg (by simp [h.lost hitem])]
      exact ih
  | mute hitem hmute _ ih =>
      rw [List.filter_cons_of_neg (by simp [h.lost hitem]), find_of_missed hmute]
      exact ih

/-- A lost item decides nothing for the copy. -/
theorem Faithful.survives_lost (h : Faithful keep good R f g Kept Lost) {item : α}
    {items : List α} {copies : List α'} (hitem : Lost item)
    (hcopied : Copied g Kept Lost items copies)
    (ih : Alike R (items.findSomeM? f) (copies.findSomeM? g) ↔ Survives keep good f items) :
    Alike R ((item :: items).findSomeM? f) (copies.findSomeM? g) ↔
      Survives keep good f (item :: items) := by
  have hmirror := h.mirror hcopied
  have hlost := h.lost hitem
  cases hf : f item with
  | error e =>
      rw [find_of_raised hf, survives_of_raised hf, List.filter_cons_of_neg (by simp [hlost])]
      generalize (items.filter keep).findSomeM? f = outcome at hmirror ⊢
      generalize copies.findSomeM? g = outcome' at hmirror ⊢
      constructor
      · intro halike
        cases halike
        cases hmirror
        rfl
      · rintro rfl
        cases hmirror
        exact .raised e
  | ok found =>
      cases found with
      | none => rw [find_of_missed hf, survives_of_missed hf, ih]
      | some answer =>
          rw [find_of_found hf, survives_of_found hf, hlost]
          generalize (items.filter keep).findSomeM? f = outcome at hmirror
          generalize copies.findSomeM? g = outcome' at hmirror ⊢
          refine ⟨fun halike => ?_, fun hkept => nomatch hkept.1⟩
          cases halike with
          | found hanswer =>
              cases hmirror with
              | found hother =>
                  obtain ⟨other, copy, hkept, hg⟩ := hother
                  exact absurd hanswer (h.clash hitem hf hkept hg)

/-- The two searches agree exactly where the decision survives the copying. -/
theorem Faithful.same_iff (h : Faithful keep good R f g Kept Lost) {items : List α}
    {copies : List α'} (hcopied : Copied g Kept Lost items copies) :
    Alike R (items.findSomeM? f) (copies.findSomeM? g) ↔ Survives keep good f items := by
  induction hcopied with
  | nil =>
      refine ⟨fun _ item hitem => ?_, fun _ => .missed⟩
      obtain ⟨before, after, heq, -⟩ := hitem
      exact absurd heq.symm (List.append_ne_nil_of_right_ne_nil _ (List.cons_ne_nil _ _))
  | @kept item copy items copies hitem rest ih =>
      have halike := h.alike hitem
      have hkeep := h.kept hitem
      generalize hf : f item = outcome at halike
      generalize hg : g copy = outcome' at halike
      cases halike with
      | missed => rw [find_of_missed hf, find_of_missed hg, survives_of_missed hf, ih]
      | found hanswer =>
          rw [find_of_found hf, find_of_found hg, survives_of_found hf, hkeep]
          refine ⟨fun halike => ?_, fun hgood => .found (hanswer.mpr hgood.2)⟩
          cases halike with
          | found hrelated => exact ⟨rfl, hanswer.mp hrelated⟩
      | raised e =>
          rw [find_of_raised hf, find_of_raised hg, survives_of_raised hf,
            List.filter_cons_of_pos hkeep, find_of_raised hf]
          exact ⟨fun _ => rfl, fun _ => .raised e⟩
  | gone hitem hrest ih => exact h.survives_lost hitem hrest ih
  | mute hitem hmute hrest ih =>
      rw [find_of_missed hmute]
      exact h.survives_lost hitem hrest ih

end

end Vnctlsd.Library.Scan
