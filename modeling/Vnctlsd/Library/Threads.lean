import Mathlib.Data.List.Basic
import Mathlib.Algebra.GroupWithZero.Nat
import Mathlib.Algebra.BigOperators.Group.List.Basic

/-! Threads of a process that take turns, each with a state of its own. -/
namespace Vnctlsd.Library.Threads

variable {Thread : Type u} {threads next : List Thread} {i : Nat} {before after : Thread}
  {move : Thread → Option Thread}

/-- The thread at `i` moves, the others stay as they are. -/
def turn (threads : List Thread) (i : Nat) (move : Thread → Option Thread) :
    Option (List Thread) :=
  threads[i]?.bind fun thread => (move thread).map (threads.set i)

theorem turn_cases (h : turn threads i move = some next) :
    ∃ before after, threads[i]? = some before ∧ move before = some after ∧
      next = threads.set i after := by
  obtain ⟨before, hbefore, hmap⟩ := Option.bind_eq_some_iff.mp h
  obtain ⟨after, hafter, hnext⟩ := Option.map_eq_some_iff.mp hmap
  exact ⟨before, after, hbefore, hafter, hnext.symm⟩

theorem turn_eq_none_iff (hbefore : threads[i]? = some before) :
    turn threads i move = none ↔ move before = none := by
  rw [turn, hbefore, Option.bind_some, Option.map_eq_none_iff]

/-- A property of each thread at its place need be shown of the one that moves. -/
theorem forall_set {holds : Nat → Thread → Prop}
    (hothers : ∀ j thread, j ≠ i → threads[j]? = some thread → holds j thread)
    (hafter : holds i after) (j : Nat) (thread : Thread)
    (hthread : (threads.set i after)[j]? = some thread) : holds j thread := by
  by_cases hj : j = i
  · subst hj
    obtain ⟨hlength, hmem⟩ := List.getElem?_eq_some_iff.mp hthread
    rw [List.getElem_set_self] at hmem
    exact hmem ▸ hafter
  · rw [List.getElem?_set_ne (Ne.symm hj)] at hthread
    exact hothers j thread hj hthread

/-- A sum over the threads changes by what the one that moves changes. -/
theorem sum_map_set (weight : Thread → Nat) (after : Thread)
    (hbefore : threads[i]? = some before) :
    ((threads.set i after).map weight).sum + weight before =
      (threads.map weight).sum + weight after := by
  induction threads generalizing i with
  | nil => cases hbefore
  | cons thread threads ih =>
      cases i with
      | zero =>
          cases hbefore
          simp only [List.set_cons_zero, List.map_cons, List.sum_cons]
          omega
      | succ i =>
          have hrest := ih (i := i) hbefore
          simp only [List.set_cons_succ, List.map_cons, List.sum_cons]
          omega

end Vnctlsd.Library.Threads
