import Vnctlsd.Bridge.Attempts

/-! How long a lock lasts.  A success drops the user's whole entry and a failure
may set a new lock over a running one, whatever the order the attempts end in. -/
namespace Vnctlsd.Bridge.Lockout
open Vnctlsd.Library Vnctlsd.Library.Transition RateLimiter Attempts

/-- Before the end of a lock that has been set, the user is limited at every time
up to that end. -/
def LocksLast (world : World) : Prop :=
  ∀ username ends, (username, ends) ∈ world.locks → world.now < ends →
    ∀ time, time < ends → isLimited world.limiter time username = true

/-- While a user's lock runs no success of the user is recorded, and no failure
sets a lock that ends before it. -/
def LeavesLocks (limits : Limits) (world : World) : Event → Prop
  | .act i .succeed => ∀ username, world.attempts[i]? = some (.accepted username) →
      ∀ ends, (username, ends) ∈ world.locks → ends ≤ world.now
  | .act i .record => ∀ username start reading,
      world.attempts[i]? = some (.recording username start reading) →
      completes limits world.limiter reading username = true →
      ∀ ends, (username, ends) ∈ world.locks → world.now < ends →
        ends ≤ reading + limits.lockout
  | _ => True

/-- Every lock still to end is on file, or a longer one is. -/
structure Running (world : World) : Prop where
  sound : Sound world
  onFile : ∀ username ends, (username, ends) ∈ world.locks → world.now < ends →
    ∃ state, world.limiter.get? username = some state ∧ ends ≤ state.lockedUntil

theorem running_record {limits : Limits} {world : World} {i : Nat} {username : String}
    {start reading : ℚ} (h : Running world)
    (hget : world.attempts[i]? = some (.recording username start reading))
    (hguard : LeavesLocks limits world (.act i .record)) :
    ∀ other ends,
      (other, ends) ∈ (if completes limits world.limiter reading username then
        (username, reading + limits.lockout) :: world.locks else world.locks) →
      world.now < ends →
      ∃ state, (recordFailure limits world.limiter reading username).get? other = some state ∧
        ends ≤ state.lockedUntil := by
  intro other ends hlock hrunning
  rw [get?_recordFailure]
  cases hcompletes : completes limits world.limiter reading username with
  | true =>
      have hfull := of_decide_eq_true hcompletes
      rw [hcompletes, if_pos rfl] at hlock
      by_cases hother : other = username
      · subst hother
        rw [if_pos rfl]
        refine ⟨_, rfl, ?_⟩
        rw [show (world.limiter.get? other).getD .fresh = stateOf world.limiter other from rfl,
          UserState.record_of_full hfull]
        rcases List.mem_cons.mp hlock with hnew | hold
        · exact (Prod.mk.inj hnew).2.le
        · exact hguard other start reading hget hcompletes ends hold hrunning
      · rw [if_neg hother]
        rcases List.mem_cons.mp hlock with hnew | hold
        · exact absurd (Prod.mk.inj hnew).1 hother
        · exact h.onFile other ends hold hrunning
  | false =>
      have hopen := of_decide_eq_false hcompletes
      rw [hcompletes, if_neg Bool.false_ne_true] at hlock
      obtain ⟨state, hstate, hends⟩ := h.onFile other ends hlock hrunning
      by_cases hother : other = username
      · subst hother
        rw [if_pos rfl]
        refine ⟨_, rfl, ?_⟩
        rw [show (world.limiter.get? other).getD .fresh = stateOf world.limiter other from rfl,
          UserState.record_of_open hopen, stateOf, hstate]
        exact hends
      · rw [if_neg hother]
        exact ⟨state, hstate, hends⟩

theorem running_attemptStep {limits : Limits} {world next : World} {i : Nat}
    {attempt : Attempt} {act : Act} (h : Running world)
    (hget : world.attempts[i]? = some attempt)
    (hguard : LeavesLocks limits world (.act i act))
    (hstep : attemptStep limits world i attempt act = some next) :
    ∀ username ends, (username, ends) ∈ next.locks → next.now < ends →
      ∃ state, next.limiter.get? username = some state ∧ ends ≤ state.lockedUntil := by
  unfold attemptStep at hstep
  split at hstep <;> cases hstep
  · exact h.onFile
  · exact h.onFile
  · exact h.onFile
  · exact h.onFile
  · exact h.onFile
  · exact running_record h hget hguard
  · rename_i username
    intro other ends hlock hrunning
    have hother : other ≠ username := by
      rintro rfl
      exact absurd hrunning (not_lt.mpr (hguard other hget ends hlock))
    obtain ⟨state, hstate, hends⟩ := h.onFile other ends hlock hrunning
    exact ⟨state, ((get?_recordSuccess ..).trans (if_neg hother)).trans hstate, hends⟩

/-- A running lock keeps its entry from being reaped. -/
theorem running_reap {limits : Limits} {world : World} {reading : ℚ} (h : Running world)
    (hreading : reading ≤ world.now) :
    ∀ username ends, (username, ends) ∈ world.locks → world.now < ends →
      ∃ state, (reap limits world.limiter reading).get? username = some state ∧
        ends ≤ state.lockedUntil := by
  intro username ends hlock hrunning
  obtain ⟨state, hstate, hends⟩ := h.onFile username ends hlock hrunning
  have hlive : state.stale limits reading = false := by
    have hlocked : ¬ state.lockedUntil < reading := by linarith
    simp [UserState.stale, hlocked]
  refine ⟨state, ?_, hends⟩
  rw [get?_reap, hstate]
  exact Option.filter_some_pos (by simp [hlive])

theorem running_step {limits : Limits} {world next : World} {event : Event} (h : Running world)
    (hguard : LeavesLocks limits world event) (hstep : step limits world event = some next) :
    Running next := by
  refine ⟨sound_step h.sound hstep, ?_⟩
  cases event with
  | tick later =>
      simp only [step] at hstep
      split at hstep <;> cases hstep
      rename_i hle
      intro username ends hlock hrunning
      exact h.onFile username ends hlock (lt_of_le_of_lt hle hrunning)
  | ask username =>
      cases hstep
      exact h.onFile
  | reapClock =>
      simp only [step] at hstep
      split at hstep <;> cases hstep
      exact h.onFile
  | reap =>
      simp only [step] at hstep
      split at hstep <;> cases hstep
      rename_i reading hreading
      exact running_reap h (h.sound.reaper reading hreading)
  | act i act =>
      obtain ⟨attempt, hget, hact⟩ := Option.bind_eq_some_iff.mp hstep
      exact running_attemptStep h hget hguard hact

/-- A lock lasts as long as nothing of its user's is recorded that lifts it. -/
theorem locksLast_of_leavesLocks {limits : Limits} {now : ℚ} {events : List Event}
    {finish : World}
    (hrun : GuardedRun (step limits) (LeavesLocks limits) (.start now) events finish) :
    LocksLast finish := by
  have hrunning := hrun.invariant
    (fun world event next h hguard hstep => running_step h hguard hstep)
    ⟨sound_start now, fun _ _ hlock => nomatch hlock⟩
  intro username ends hlock hbefore time htime
  obtain ⟨state, hstate, hends⟩ := hrunning.onFile username ends hlock hbefore
  rw [isLimited, hstate, Option.any_some, decide_eq_true_eq]
  exact htime.trans_le hends

/-- Two guesses pass the check together, and the first to fail sets the lock. -/
def lockedMidway : List Event :=
  [.ask "alice", .ask "alice", .act 0 .check, .act 1 .check, .act 0 .start, .act 1 .start,
    .tick 11, .act 0 (.verified false), .act 0 .readClock, .act 0 .record]

theorem locksLast_of_leavesLocks_twice :
    ∃ finish, GuardedRun (step strict) (LeavesLocks strict) (.start 10)
        (lockedMidway ++ [.act 1 (.verified false), .act 1 .readClock, .act 1 .record]) finish ∧
      finish.locks = [("alice", 911), ("alice", 911)] ∧ LocksLast finish := by
  have hleaves : ∃ finish, GuardedRun (step strict) (LeavesLocks strict) (.start 10)
      (lockedMidway ++ [.act 1 (.verified false), .act 1 .readClock, .act 1 .record]) finish ∧
        finish.locks = [("alice", 911), ("alice", 911)] := by
    refine ⟨_, .cons trivial rfl (.cons trivial rfl (.cons trivial rfl (.cons trivial rfl
      (.cons trivial rfl (.cons trivial rfl (.cons trivial rfl (.cons trivial rfl
      (.cons trivial rfl (.cons ?_ rfl (.cons trivial rfl (.cons trivial rfl
      (.cons ?_ rfl (.nil _))))))))))))), ?_⟩
    · intro username start reading _ _ ends hlock
      cases hlock
    · intro username start reading hget _ ends hlock _
      cases hget
      refine (?_ : ∀ lock ∈ _, lock.2 ≤ (11 : ℚ) + strict.lockout) _ hlock
      decide +kernel
    · decide +kernel
  obtain ⟨finish, hrun, hlocks⟩ := hleaves
  exact ⟨finish, hrun, hlocks, locksLast_of_leavesLocks hrun⟩

/-- The second guess is right: its success drops the entry that holds the lock. -/
theorem success_lifts_lock :
    ∃ finish, Run (step strict) (.start 10)
        (lockedMidway ++ [.act 1 (.verified true), .act 1 .succeed]) finish ∧
      finish.now = 11 ∧ finish.locks = [("alice", 911)] ∧
      isLimited finish.limiter 12 "alice" = false ∧ ¬ LocksLast finish := by
  have hlifts : ∃ finish, Run (step strict) (.start 10)
      (lockedMidway ++ [.act 1 (.verified true), .act 1 .succeed]) finish ∧
      finish.now = 11 ∧ finish.locks = [("alice", 911)] ∧
      isLimited finish.limiter 12 "alice" = false :=
    ⟨_, run_of_exec rfl, rfl, by decide +kernel, by decide +kernel⟩
  obtain ⟨finish, hrun, hnow, hlocks, hfree⟩ := hlifts
  refine ⟨finish, hrun, hnow, hlocks, hfree, fun h => ?_⟩
  have hlock : ("alice", (911 : ℚ)) ∈ finish.locks := hlocks ▸ List.mem_cons_self ..
  have hlimited := h "alice" 911 hlock (hnow ▸ by decide +kernel) 12 (by decide +kernel)
  rw [hfree] at hlimited
  cases hlimited

end Vnctlsd.Bridge.Lockout
