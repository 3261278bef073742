import Mathlib.Data.List.Basic

/-! One pass that takes the words of a language out of a stream.  A word begins with
a mark and has no other mark, so no two overlap; but what is left around a word can
be a word again. -/
namespace Vnctlsd.Library.Erasure

/-- A word is the mark and a body; `rest` reads a body off. -/
structure Marked (α : Type u) where
  mark : α
  Body : List α → Prop
  rest : List α → Option (List α)
  rest_eq_some_iff : ∀ s r, rest s = some r ↔ ∃ body, Body body ∧ s = body ++ r
  unmarked : ∀ body, Body body → mark ∉ body

variable {α : Type u} {L : Marked α}

/-- A word stands at the front. -/
def Begins (L : Marked α) (s : List α) : Prop :=
  ∃ body post, L.Body body ∧ s = L.mark :: (body ++ post)

def Occurs (L : Marked α) (s : List α) : Prop :=
  ∃ pre body post, L.Body body ∧ s = pre ++ L.mark :: (body ++ post)

/-- The pass from left to right. -/
inductive Erases (L : Marked α) : List α → List α → Prop where
  | nil : Erases L [] []
  | word {body s r : List α} : L.Body body → Erases L s r →
      Erases L (L.mark :: (body ++ s)) r
  | keep {c : α} {s r : List α} : ¬ Begins L (c :: s) → Erases L s r →
      Erases L (c :: s) (c :: r)

/-- `Spread L w t`: the symbols of `w`, with whole words put in before any of them. -/
inductive Spread (L : Marked α) : List α → List α → Prop where
  | nil : Spread L [] []
  | symbol {c : α} {w t : List α} : Spread L w t → Spread L (c :: w) (c :: t)
  | across {body : List α} {c : α} {w t : List α} : L.Body body → Spread L (c :: w) t →
      Spread L (c :: w) (L.mark :: (body ++ t))

/-- Somewhere stands a word with whole words inside it. -/
def Interrupted (L : Marked α) (s : List α) : Prop :=
  ∃ pre body t post, L.Body body ∧ Spread L body t ∧ t ≠ body ∧
    s = pre ++ L.mark :: (t ++ post)

/-- No body is the beginning of another. -/
theorem Marked.prefix_free {body other post : List α} (h : L.Body body)
    (h' : L.Body other) (heq : body = other ++ post) : post = [] := by
  have hwhole := (L.rest_eq_some_iff body []).mpr ⟨body, h, (List.append_nil _).symm⟩
  have hpart := (L.rest_eq_some_iff body post).mpr ⟨other, h', heq⟩
  rw [hwhole] at hpart
  exact (Option.some.inj hpart).symm

/-- What has no mark and is followed by one ends before it. -/
theorem prefix_of_unmarked {mark : α} {u v post rest : List α} (hu : mark ∉ u)
    (h : u ++ rest = v ++ mark :: post) : ∃ w, v = u ++ w := by
  rcases List.append_eq_append_iff.mp h with ⟨w, rfl, -⟩ | ⟨w, rfl, hw⟩
  · exact ⟨w, rfl⟩
  · cases w with
    | nil => exact ⟨[], by simp⟩
    | cons c w =>
        cases hw
        exact absurd (List.mem_append_right v (List.mem_cons_self ..)) hu

theorem not_begins_of_ne {c : α} (h : c ≠ L.mark) (s : List α) : ¬ Begins L (c :: s) := by
  rintro ⟨body, post, -, heq⟩
  cases heq
  exact h rfl

/-- A word does not reach over a symbol that none of them has. -/
theorem begins_append_cons_iff {b c : α} (hbody : ∀ body, L.Body body → c ∉ body)
    (s post : List α) : Begins L (b :: s ++ c :: post) ↔ Begins L (b :: s) := by
  constructor
  · rintro ⟨body, rest, hword, heq⟩
    rw [List.cons_append, List.cons.injEq] at heq
    obtain ⟨rfl, heq⟩ := heq
    obtain ⟨behind, rfl⟩ := prefix_of_unmarked (hbody body hword) heq.symm
    exact ⟨body, behind, hword, rfl⟩
  · rintro ⟨body, rest, hword, heq⟩
    exact ⟨body, rest ++ c :: post, hword, by simp [heq]⟩

theorem erases_total (L : Marked α) (s : List α) : ∃ r, Erases L s r := by
  induction hlength : s.length using Nat.strongRecOn generalizing s with
  | ind n ih =>
      by_cases hbegins : Begins L s
      · obtain ⟨body, post, hbody, rfl⟩ := hbegins
        rw [List.length_cons, List.length_append] at hlength
        obtain ⟨r, hr⟩ := ih post.length (by omega) post rfl
        exact ⟨r, .word hbody hr⟩
      · cases s with
        | nil => exact ⟨[], .nil⟩
        | cons c s =>
            rw [List.length_cons] at hlength
            obtain ⟨r, hr⟩ := ih s.length (by omega) s rfl
            exact ⟨c :: r, .keep hbegins hr⟩

/-- A word and what follows it can be told apart. -/
theorem body_unique {body other s s' : List α} (h : L.Body body) (h' : L.Body other)
    (heq : body ++ s = other ++ s') : s = s' := by
  have hrest := (L.rest_eq_some_iff (body ++ s) s).mpr ⟨body, h, rfl⟩
  have hrest' := (L.rest_eq_some_iff (body ++ s) s').mpr ⟨other, h', heq⟩
  rw [hrest] at hrest'
  exact Option.some.inj hrest'

theorem Erases.unique {s r r' : List α} (h : Erases L s r) (h' : Erases L s r') :
    r = r' := by
  induction h generalizing r' with
  | nil =>
      cases h'
      rfl
  | @word body s r hbody hrest ih =>
      generalize heq : L.mark :: (body ++ s) = whole at h'
      cases h' with
      | nil => cases heq
      | word hbody' hrest' =>
          rw [List.cons.injEq] at heq
          obtain rfl := body_unique hbody hbody' heq.2
          exact ih hrest'
      | keep hnot _ => exact absurd ⟨body, s, hbody, heq.symm⟩ hnot
  | @keep c s r hnot hrest ih =>
      generalize heq : c :: s = whole at h'
      cases h' with
      | nil => cases heq
      | word hbody' hrest' => exact absurd ⟨_, _, hbody', heq⟩ hnot
      | keep hnot' hrest' =>
          cases heq
          rw [ih hrest']

theorem Erases.length_le {s r : List α} (h : Erases L s r) : r.length ≤ s.length := by
  induction h with
  | nil => exact Nat.le_refl _
  | word hbody hrest ih =>
      rw [List.length_cons, List.length_append]
      omega
  | keep hnot hrest ih => exact Nat.succ_le_succ ih

theorem occurs_of_begins {s : List α} (h : Begins L s) : Occurs L s := by
  obtain ⟨body, post, hbody, rfl⟩ := h
  exact ⟨[], body, post, hbody, rfl⟩

theorem occurs_cons_iff {c : α} {s : List α} :
    Occurs L (c :: s) ↔ Begins L (c :: s) ∨ Occurs L s := by
  constructor
  · rintro ⟨pre, body, post, hbody, heq⟩
    cases pre with
    | nil => exact .inl ⟨body, post, hbody, heq⟩
    | cons d pre =>
        rw [List.cons_append, List.cons.injEq] at heq
        exact .inr ⟨pre, body, post, hbody, heq.2⟩
  · rintro (hbegins | ⟨pre, body, post, hbody, rfl⟩)
    · exact occurs_of_begins hbegins
    · exact ⟨c :: pre, body, post, hbody, rfl⟩

theorem not_occurs_nil : ¬ Occurs L [] := by
  rintro ⟨pre, body, post, -, heq⟩
  cases pre <;> cases heq

/-- No word begins where there is no mark. -/
theorem occurs_append_iff_of_unmarked {before : List α} (h : L.mark ∉ before) (s : List α) :
    Occurs L (before ++ s) ↔ Occurs L s := by
  induction before with
  | nil => exact Iff.rfl
  | cons c before ih =>
      rw [List.mem_cons, not_or] at h
      rw [List.cons_append, occurs_cons_iff, ih h.2]
      exact or_iff_right (not_begins_of_ne (Ne.symm h.1) _)

theorem occurs_append_left {s : List α} (h : Occurs L s) (post : List α) :
    Occurs L (s ++ post) := by
  obtain ⟨pre, body, rest, hbody, rfl⟩ := h
  exact ⟨pre, body, rest ++ post, hbody, by simp⟩

/-- No word reaches into what none of them can end in. -/
theorem occurs_append_iff_of_last {post : List α}
    (hlast : ∀ body, L.Body body → ∃ front last, body = front ++ [last] ∧ last ∉ post)
    (s : List α) : Occurs L (s ++ post) ↔ Occurs L s := by
  refine ⟨fun ⟨pre, body, rest, hbody, heq⟩ => ?_, fun h => occurs_append_left h post⟩
  obtain ⟨front, last, rfl, hnot⟩ := hlast body hbody
  have heq : s ++ post = (pre ++ L.mark :: (front ++ [last])) ++ rest := by simp [heq]
  rcases List.append_eq_append_iff.mp heq with ⟨w, hpre, rfl⟩ | ⟨w, rfl, -⟩
  · rcases List.eq_nil_or_concat w with rfl | ⟨w, b, rfl⟩
    · exact ⟨pre, front ++ [last], [], hbody, by simpa using hpre.symm⟩
    · have hsame := congrArg List.getLast? hpre
      obtain rfl : last = b := by simpa [List.getLast?_append, List.getLast?_cons] using hsame
      exact absurd (by simp) hnot
  · exact ⟨pre, front ++ [last], w, hbody, by simp⟩

/-- Words on the two sides of a symbol that none of them has. -/
theorem occurs_append_cons_iff {c : α} (hmark : c ≠ L.mark)
    (hbody : ∀ body, L.Body body → c ∉ body) (s post : List α) :
    Occurs L (s ++ c :: post) ↔ Occurs L s ∨ Occurs L post := by
  induction s with
  | nil =>
      rw [List.nil_append, occurs_cons_iff]
      exact (or_iff_right (not_begins_of_ne hmark _)).trans
        (or_iff_right not_occurs_nil).symm
  | cons d s ih =>
      rw [List.cons_append, occurs_cons_iff, occurs_cons_iff, ih, or_assoc]
      exact or_congr_left (begins_append_cons_iff hbody s post)

theorem Erases.length_lt {s r : List α} (h : Erases L s r) (hoccurs : Occurs L s) :
    r.length < s.length := by
  induction h with
  | nil => exact absurd hoccurs not_occurs_nil
  | word hbody hrest ih =>
      have := hrest.length_le
      rw [List.length_cons, List.length_append]
      omega
  | keep hnot hrest ih =>
      rcases occurs_cons_iff.mp hoccurs with hbegins | htail
      · exact absurd hbegins hnot
      · exact Nat.succ_lt_succ (ih htail)

/-- Exactly the streams without words are left as they are. -/
theorem erases_self_iff {s : List α} : Erases L s s ↔ ¬ Occurs L s := by
  constructor
  · intro h hoccurs
    exact Nat.lt_irrefl _ (h.length_lt hoccurs)
  · intro hnot
    induction s with
    | nil => exact .nil
    | cons c s ih =>
        rw [occurs_cons_iff, not_or] at hnot
        exact .keep hnot.1 (ih hnot.2)

/-- A word does not reach over the next mark. -/
theorem Erases.append {s r post q : List α} (h : Erases L s r)
    (h' : Erases L (L.mark :: post) q) :
    Erases L (s ++ L.mark :: post) (r ++ q) := by
  induction h with
  | nil => exact h'
  | word hbody hrest ih =>
      rw [List.cons_append, List.append_assoc]
      exact .word hbody ih
  | keep hnot hrest ih => exact .keep (mt (begins_append_cons_iff L.unmarked _ post).mp hnot) ih

theorem Spread.erases {w t post q : List α} (h : Spread L w t) (hmark : L.mark ∉ w)
    (h' : Erases L post q) : Erases L (t ++ post) (w ++ q) := by
  induction h with
  | nil => exact h'
  | symbol hspread ih =>
      rw [List.mem_cons, not_or] at hmark
      exact .keep (not_begins_of_ne (Ne.symm hmark.1) _) (ih hmark.2)
  | across hbody hspread ih =>
      rw [List.cons_append, List.append_assoc]
      exact .word hbody (ih hmark)

/-- What is put in comes before some part of the word. -/
theorem Spread.split {w t : List α} (h : Spread L w t) (hne : t ≠ w) :
    ∃ u v t', w = u ++ v ∧ v ≠ [] ∧ t = u ++ L.mark :: t' := by
  induction h with
  | nil => exact absurd rfl hne
  | @symbol c w t hspread ih =>
      obtain ⟨u, v, t', rfl, hv, rfl⟩ := ih fun heq => hne (heq ▸ rfl)
      exact ⟨c :: u, v, t', rfl, hv, rfl⟩
  | @across body c w t hbody hspread ih =>
      exact ⟨[], c :: w, body ++ t, rfl, List.cons_ne_nil c w, rfl⟩

theorem Spread.not_begins {body t : List α} (h : Spread L body t) (hbody : L.Body body)
    (hne : t ≠ body) (post : List α) : ¬ Begins L (L.mark :: (t ++ post)) := by
  obtain ⟨u, v, t', rfl, hv, rfl⟩ := h.split hne
  rintro ⟨other, behind, hother, heq⟩
  rw [List.cons.injEq, List.append_assoc, List.cons_append] at heq
  obtain ⟨w, rfl⟩ := prefix_of_unmarked (L.unmarked other hother) heq.2.symm
  rw [List.append_assoc] at hbody
  have hnil := L.prefix_free hbody hother rfl
  exact hv (List.append_eq_nil_iff.mp hnil).2

/-- What the pass leaves was there, with nothing to take at its place. -/
theorem Erases.kept {s r p q : List α} {c : α} (h : Erases L s r) (heq : r = p ++ c :: q) :
    ∃ pre post, s = pre ++ c :: post ∧ ¬ Begins L (c :: post) ∧ Erases L post q := by
  induction h generalizing p with
  | nil => cases p <;> cases heq
  | @word body s r hbody hrest ih =>
      obtain ⟨pre, post, rfl, hnot, hpost⟩ := ih heq
      exact ⟨L.mark :: (body ++ pre), post, by simp, hnot, hpost⟩
  | @keep d s r hnot hrest ih =>
      cases p with
      | nil =>
          cases heq
          exact ⟨[], s, rfl, hnot, hrest⟩
      | cons e p =>
          rw [List.cons_append, List.cons.injEq] at heq
          obtain ⟨pre, post, rfl, hnot', hpost⟩ := ih heq.2
          exact ⟨d :: pre, post, rfl, hnot', hpost⟩

theorem Erases.spread {s r w q : List α} (h : Erases L s r) (heq : r = w ++ q) :
    ∃ t post, s = t ++ post ∧ Spread L w t := by
  induction h generalizing w with
  | nil =>
      obtain ⟨rfl, -⟩ := List.append_eq_nil_iff.mp heq.symm
      exact ⟨[], [], rfl, .nil⟩
  | @word body s r hbody hrest ih =>
      cases w with
      | nil => exact ⟨[], _, rfl, .nil⟩
      | cons c w =>
          obtain ⟨t, post, rfl, hspread⟩ := ih heq
          exact ⟨L.mark :: (body ++ t), post, by simp, .across hbody hspread⟩
  | @keep d s r hnot hrest ih =>
      cases w with
      | nil => exact ⟨[], _, rfl, .nil⟩
      | cons c w =>
          rw [List.cons_append, List.cons.injEq] at heq
          obtain ⟨t, post, rfl, hspread⟩ := ih heq.2
          exact ⟨d :: t, post, rfl, heq.1 ▸ .symbol hspread⟩

/-- The pass leaves a word exactly where words stood inside of one. -/
theorem Erases.occurs_iff {s r : List α} (h : Erases L s r) :
    Occurs L r ↔ Interrupted L s := by
  constructor
  · rintro ⟨p, body, q, hbody, heq⟩
    obtain ⟨pre, behind, rfl, hnot, hbehind⟩ := h.kept heq
    obtain ⟨t, post, rfl, hspread⟩ := hbehind.spread rfl
    refine ⟨pre, body, t, post, hbody, hspread, ?_, rfl⟩
    rintro rfl
    exact hnot ⟨t, post, hbody, rfl⟩
  · rintro ⟨pre, body, t, post, hbody, hspread, hne, rfl⟩
    obtain ⟨p, hp⟩ := erases_total L pre
    obtain ⟨q, hq⟩ := erases_total L post
    have hrest : Erases L (L.mark :: (t ++ post)) (L.mark :: (body ++ q)) :=
      .keep (hspread.not_begins hbody hne post) (hspread.erases (L.unmarked body hbody) hq)
    rw [h.unique (hp.append hrest)]
    exact ⟨p, body, q, hbody, rfl⟩

end Vnctlsd.Library.Erasure
