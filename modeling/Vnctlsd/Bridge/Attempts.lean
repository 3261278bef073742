import Vnctlsd.Bridge.RateLimiter
import Vnctlsd.Library.Transition

/-! Login attempts at the bridge, any number of them at a time.  The limiter reads
the clock before it takes its lock, so a reading can be old by the time it counts. -/
namespace Vnctlsd.Bridge.Attempts
open Vnctlsd.Library Vnctlsd.Library.Transition RateLimiter

/-- Where an attempt stands; a verification keeps the time it started at, and a
clock reading stands for the lock that is still to be taken. -/
inductive Attempt where
  | checking (username : String) (reading : ℚ)
  | admitted (username : String)
  | verifying (username : String) (start : ℚ)
  | failed (username : String) (start : ℚ)
  | recording (username : String) (start reading : ℚ)
  | accepted (username : String)
  | done
  deriving DecidableEq

/-- `starts`, `locks` and `succeeded` only keep the record: the verifications
started, the ends of the locks set, and the users PAM has accepted. -/
structure World where
  now : ℚ
  limiter : Limiter
  reaper : Option ℚ
  attempts : List Attempt
  starts : List (String × ℚ)
  locks : List (String × ℚ)
  succeeded : List String

inductive Act where
  | check
  | start
  | abort
  | verified (ok : Bool)
  | readClock
  | record
  | succeed

inductive Event where
  | tick (later : ℚ)
  | ask (username : String)
  | reapClock
  | reap
  | act (i : Nat) (act : Act)

def stateOf (limiter : Limiter) (username : String) : UserState :=
  (limiter.get? username).getD .fresh

/-- The failure about to be recorded completes the count. -/
def completes (limits : Limits) (limiter : Limiter) (reading : ℚ) (username : String) : Bool :=
  limits.max ≤ (recent limits reading (stateOf limiter username).failures).length + 1

def attemptStep (limits : Limits) (world : World) (i : Nat) :
    Attempt → Act → Option World
  | .checking username reading, .check => some { world with
      attempts := world.attempts.set i
        (if isLimited world.limiter reading username then .done else .admitted username) }
  | .admitted username, .start => some { world with
      attempts := world.attempts.set i (.verifying username world.now)
      starts := (username, world.now) :: world.starts }
  | .admitted _, .abort => some { world with attempts := world.attempts.set i .done }
  | .verifying username start, .verified ok => some { world with
      attempts := world.attempts.set i (if ok then .accepted username else .failed username start)
      succeeded := if ok then username :: world.succeeded else world.succeeded }
  | .failed username start, .readClock => some { world with
      attempts := world.attempts.set i (.recording username start world.now) }
  | .recording username _ reading, .record => some { world with
      attempts := world.attempts.set i .done
      limiter := recordFailure limits world.limiter reading username
      locks := if completes limits world.limiter reading username then
          (username, reading + limits.lockout) :: world.locks
        else world.locks }
  | .accepted username, .succeed => some { world with
      attempts := world.attempts.set i .done
      limiter := recordSuccess world.limiter username }
  | _, _ => none

/-- A verification that cannot be started at all is an `abort`. -/
def step (limits : Limits) (world : World) : Event → Option World
  | .tick later => if world.now ≤ later then some { world with now := later } else none
  | .ask username => some { world with
      attempts := world.attempts ++ [.checking username world.now] }
  | .reapClock =>
      match world.reaper with
      | none => some { world with reaper := some world.now }
      | some _ => none
  | .reap =>
      match world.reaper with
      | none => none
      | some reading => some { world with
          limiter := reap limits world.limiter reading, reaper := none }
  | .act i act => world.attempts[i]?.bind fun attempt => attemptStep limits world i attempt act

def World.start (now : ℚ) : World := ⟨now, .empty, none, [], [], [], []⟩

/-- No reading of an attempt is ahead of the clock, none of a failure is older
than the verification that failed, and who is accepted is on record. -/
def Attempt.sound (now : ℚ) (succeeded : List String) : Attempt → Prop
  | .checking _ reading => reading ≤ now
  | .verifying _ start | .failed _ start => start ≤ now
  | .recording _ start reading => start ≤ reading ∧ reading ≤ now
  | .accepted username => username ∈ succeeded
  | .admitted _ | .done => True

structure Sound (world : World) : Prop where
  attempts : ∀ attempt ∈ world.attempts, attempt.sound world.now world.succeeded
  reaper : ∀ reading, world.reaper = some reading → reading ≤ world.now

theorem Attempt.sound_later {now later : ℚ} {succeeded succeeded' : List String}
    (hle : now ≤ later) (hsub : succeeded ⊆ succeeded') {attempt : Attempt}
    (h : attempt.sound now succeeded) : attempt.sound later succeeded' := by
  cases attempt with
  | checking username reading => exact le_trans h hle
  | verifying username start | failed username start => exact le_trans h hle
  | recording username start reading => exact ⟨h.1, h.2.trans hle⟩
  | accepted username => exact hsub h
  | admitted _ | done => trivial

/-- An attempt's step puts another attempt in its place, and neither the clock
nor the reaper moves. -/
theorem attemptStep_spec {limits : Limits} {world next : World} {i : Nat} {attempt : Attempt}
    {act : Act} (hsound : attempt.sound world.now world.succeeded)
    (h : attemptStep limits world i attempt act = some next) :
    next.now = world.now ∧ next.reaper = world.reaper ∧ world.succeeded ⊆ next.succeeded ∧
      ∃ moved : Attempt, next.attempts = world.attempts.set i moved ∧
        moved.sound next.now next.succeeded := by
  unfold attemptStep at h
  split at h <;> cases h
  · refine ⟨rfl, rfl, List.Subset.refl _, _, rfl, ?_⟩
    split <;> trivial
  · exact ⟨rfl, rfl, List.Subset.refl _, _, rfl, le_refl world.now⟩
  · exact ⟨rfl, rfl, List.Subset.refl _, _, rfl, trivial⟩
  · rename_i ok
    cases ok with
    | true => exact ⟨rfl, rfl, List.subset_cons_self .., _, rfl, List.mem_cons_self ..⟩
    | false => exact ⟨rfl, rfl, List.Subset.refl _, _, rfl, hsound⟩
  · exact ⟨rfl, rfl, List.Subset.refl _, _, rfl, hsound, le_refl world.now⟩
  · exact ⟨rfl, rfl, List.Subset.refl _, _, rfl, trivial⟩
  · exact ⟨rfl, rfl, List.Subset.refl _, _, rfl, trivial⟩

theorem sound_step {limits : Limits} {world next : World} {event : Event}
    (h : Sound world) (hstep : step limits world event = some next) : Sound next := by
  cases event with
  | tick later =>
      simp only [step] at hstep
      split at hstep <;> cases hstep
      rename_i hle
      exact ⟨fun attempt hmem =>
          Attempt.sound_later hle (List.Subset.refl _) (h.attempts attempt hmem),
        fun reading hreading => (h.reaper reading hreading).trans hle⟩
  | ask username =>
      cases hstep
      refine ⟨fun attempt hmem => ?_, h.reaper⟩
      rcases List.mem_append.mp hmem with hmem | hmem
      · exact h.attempts attempt hmem
      · rw [List.mem_singleton.mp hmem]
        exact le_refl world.now
  | reapClock =>
      simp only [step] at hstep
      split at hstep <;> cases hstep
      exact ⟨h.attempts, fun reading hreading => by cases hreading; exact le_rfl⟩
  | reap =>
      simp only [step] at hstep
      split at hstep <;> cases hstep
      exact ⟨h.attempts, fun reading hreading => nomatch hreading⟩
  | act i act =>
      obtain ⟨attempt, hget, hact⟩ := Option.bind_eq_some_iff.mp hstep
      have hattempt := h.attempts attempt (List.mem_of_getElem? hget)
      obtain ⟨hnow, hreaper, hsub, moved, hset, hmoved⟩ := attemptStep_spec hattempt hact
      refine ⟨fun other hmem => ?_, fun reading hreading => ?_⟩
      · rw [hset] at hmem
        rcases List.mem_or_eq_of_mem_set hmem with hmem | rfl
        · exact Attempt.sound_later hnow.ge hsub (h.attempts other hmem)
        · exact hmoved
      · rw [hreaper] at hreading
        rw [hnow]
        exact h.reaper reading hreading

theorem sound_start (now : ℚ) : Sound (.start now) :=
  ⟨(fun _ hmem => nomatch hmem), (fun _ hreading => nomatch hreading)⟩

def strict : Limits := ⟨1, 300, 900⟩

end Vnctlsd.Bridge.Attempts
