import Vnctlsd.Bridge.Attempts

/-! How many verifications one user's guesses can get.  The limit is checked before
a verification and the failure recorded after it, so the attempts in between count
as well. -/
namespace Vnctlsd.Bridge.BruteForce
open Vnctlsd.Library Vnctlsd.Library.Transition RateLimiter Attempts

/-- Shorter than both the failure window and the lockout. -/
def Short (limits : Limits) (width : ℚ) : Prop := width < limits.window ∧ width < limits.lockout

/-- One user's verifications, of which `waiting` are still to start and `since a`
have started at `a` or later and are not on file yet.  From `a` on, as far back as
an interval can reach, either the failures on file and these account for all, or
the user is locked until the interval is over. -/
structure Paced (limits : Limits) (now : ℚ) (s : Option UserState) (starts : List ℚ)
    (waiting : Nat) (since : ℚ → Nat) : Prop where
  past : ∀ t ∈ starts, t ≤ now
  accounted : ∀ a ≤ now, Short limits (now - a) →
    (∃ state, s = some state ∧ a + limits.lockout ≤ state.lockedUntil) ∨
      starts.countP (a ≤ ·) ≤ (s.getD .fresh).failures.countP (a ≤ ·) + since a
  room : ∀ a ≤ now, Short limits (now - a) → starts.countP (a ≤ ·) + waiting ≤ limits.max
  bounded : ∀ a b, Short limits (b - a) →
    starts.countP (fun t => a ≤ t && t ≤ b) ≤ limits.max

theorem Short.mono {limits : Limits} {width narrower : ℚ} (h : Short limits width)
    (hle : narrower ≤ width) : Short limits narrower :=
  ⟨hle.trans_lt h.1, hle.trans_lt h.2⟩

theorem countP_after {starts : List ℚ} {now a : ℚ} (hpast : ∀ t ∈ starts, t ≤ now)
    (ha : now < a) : starts.countP (a ≤ ·) = 0 := by
  apply List.countP_eq_zero.mpr
  intro t ht
  have := hpast t ht
  rw [decide_eq_true_eq]
  linarith

variable {limits : Limits} {now : ℚ} {s : Option UserState} {starts : List ℚ}
  {waiting waiting' : Nat} {since since' : ℚ → Nat}

theorem Paced.later {later : ℚ} (h : Paced limits now s starts waiting since)
    (hle : now ≤ later) : Paced limits later s starts waiting since where
  past t ht := (h.past t ht).trans hle
  accounted a ha hshort := by
    rcases le_or_gt a now with hbefore | hafter
    · exact h.accounted a hbefore (hshort.mono (by linarith))
    · rw [countP_after h.past hafter]
      exact .inr (Nat.zero_le _)
  room a ha hshort := by
    rcases le_or_gt a now with hbefore | hafter
    · exact h.room a hbefore (hshort.mono (by linarith))
    · rw [countP_after h.past hafter]
      have := h.room now le_rfl (hshort.mono (by linarith))
      omega
  bounded := h.bounded

theorem Paced.fewer (h : Paced limits now s starts waiting since) (hle : waiting' ≤ waiting)
    (hsince : ∀ a, since a ≤ since' a) : Paced limits now s starts waiting' since' where
  past := h.past
  accounted a ha hshort :=
    (h.accounted a ha hshort).imp_right fun hcount =>
      hcount.trans (Nat.add_le_add_left (hsince a) _)
  room a ha hshort := by
    have := h.room a ha hshort
    omega
  bounded := h.bounded

/-- A user who passes the check is not locked, so the failures on file and the
attempts under way account for all verifications. -/
theorem Paced.admit {reading : ℚ} {underWay : Nat}
    (h : Paced limits now s starts waiting since) (hreading : reading ≤ now)
    (hcheck : s.any (fun state => reading < state.lockedUntil) = false)
    (hsince : ∀ a, since a ≤ underWay)
    (hroom : (recent limits now (s.getD .fresh).failures).length + (waiting + underWay) <
      limits.max)
    (hwaiting : waiting' = waiting + 1) (hsame : ∀ a, since' a = since a) :
    Paced limits now s starts waiting' since' where
  past := h.past
  accounted a ha hshort := by
    rw [hsame]
    exact h.accounted a ha hshort
  room a ha hshort := by
    rcases h.accounted a ha hshort with ⟨state, rfl, hlocked⟩ | hcount
    · rw [Option.any_some, decide_eq_false_iff_not] at hcheck
      have := hshort.2
      linarith
    · have hrecent : (s.getD .fresh).failures.countP (a ≤ ·) ≤
          (recent limits now (s.getD .fresh).failures).length := by
        rw [recent, ← List.countP_eq_length_filter]
        apply List.countP_mono_left
        intro t _ ht
        have := hshort.1
        rw [decide_eq_true_eq] at ht ⊢
        linarith
      have := hsince a
      omega
  bounded := h.bounded

theorem Paced.start (h : Paced limits now s starts waiting since)
    (hwaiting : waiting = waiting' + 1) (hsince : ∀ a ≤ now, since' a = since a + 1) :
    Paced limits now s (now :: starts) waiting' since' := by
  have hcons : ∀ a ≤ now, (now :: starts).countP (a ≤ ·) = starts.countP (a ≤ ·) + 1 :=
    fun a ha => List.countP_cons_of_pos (decide_eq_true ha)
  have hroom : ∀ a ≤ now, Short limits (now - a) →
      (now :: starts).countP (a ≤ ·) + waiting' ≤ limits.max := by
    intro a ha hshort
    have := h.room a ha hshort
    rw [hcons a ha]
    omega
  refine ⟨fun t ht => ?_, fun a ha hshort => ?_, hroom, fun a b hshort => ?_⟩
  · rcases List.mem_cons.mp ht with rfl | ht
    · exact le_rfl
    · exact h.past t ht
  · rw [hcons a ha, hsince a ha]
    exact (h.accounted a ha hshort).imp_right fun hcount => by omega
  · by_cases hinside : a ≤ now ∧ now ≤ b
    · -- an interval that is still open now holds no more than began since its start
      have hopen := hroom a hinside.1 (hshort.mono (by linarith))
      have hle : (now :: starts).countP (fun t => a ≤ t && t ≤ b) ≤
          (now :: starts).countP (a ≤ ·) :=
        List.countP_mono_left fun t _ ht => (Bool.and_eq_true _ _ ▸ ht).1
      omega
    · rw [List.countP_cons_of_neg (by simpa using hinside)]
      exact h.bounded a b hshort

/-- The verification that began at `start` has failed, and its failure is put on
file under a reading that no verification has begun after. -/
theorem Paced.record {start reading : ℚ} (h : Paced limits now s starts waiting since)
    (hstart : start ≤ reading) (hreading : reading ≤ now) (hlast : ∀ t ∈ starts, t ≤ reading)
    (hbefore : ∀ a ≤ start, since a = since' a + 1) (hafter : ∀ a, start < a → since a ≤ since' a) :
    Paced limits now (some ((s.getD .fresh).record limits reading)) starts waiting since' := by
  refine ⟨h.past, fun a ha hshort => ?_, h.room, h.bounded⟩
  by_cases hfull : limits.max ≤ (recent limits reading (s.getD .fresh).failures).length + 1
  · rw [UserState.record_of_full hfull]
    rcases le_or_gt a reading with hcovered | hlater
    · exact .inl ⟨_, rfl, by simpa using hcovered⟩
    · rw [countP_after hlast hlater]
      exact .inr (Nat.zero_le _)
  · rw [UserState.record_of_open hfull]
    rcases h.accounted a ha hshort with ⟨state, rfl, hlocked⟩ | hcount
    · exact .inl ⟨_, rfl, hlocked⟩
    · refine .inr ?_
      have hkept : (recent limits reading (s.getD .fresh).failures).countP (a ≤ ·) =
          (s.getD .fresh).failures.countP (a ≤ ·) := by
        rw [recent, List.countP_filter]
        apply List.countP_congr
        intro t _
        have := hshort.1
        simp only [Bool.and_eq_true, decide_eq_true_eq, and_iff_left_iff_imp]
        intro ht
        linarith
      rw [Option.getD_some, List.countP_append, hkept, List.countP_singleton]
      rcases le_or_gt a start with hown | hother
      · rw [if_pos (decide_eq_true (hown.trans hstart))]
        have := hbefore a hown
        omega
      · have := hafter a hother
        omega

/-- What is reaped accounts for nothing that still matters. -/
theorem Paced.reaped {reading : ℚ} {state : UserState}
    (h : Paced limits now (some state) starts waiting since) (hreading : reading ≤ now)
    (hstale : state.stale limits reading = true) :
    Paced limits now none starts waiting since := by
  simp only [UserState.stale, Bool.and_eq_true, List.all_eq_true, decide_eq_true_eq] at hstale
  obtain ⟨hunlocked, hold⟩ := hstale
  refine ⟨h.past, fun a ha hshort => .inr ?_, h.room, h.bounded⟩
  obtain ⟨hwindow, hlockout⟩ := hshort
  rcases h.accounted a ha ⟨hwindow, hlockout⟩ with ⟨_, heq, hlocked⟩ | hcount
  · cases heq
    linarith
  · have hnone : state.failures.countP (a ≤ ·) = 0 := by
      apply List.countP_eq_zero.mpr
      intro t ht
      have := hold t ht
      rw [decide_eq_true_eq]
      linarith
    rw [Option.getD_some, hnone] at hcount
    exact hcount.trans (Nat.add_le_add_right (Nat.zero_le _) _)

def waits (username : String) : Attempt → Bool
  | .admitted other => other == username
  | _ => false

/-- When the user's verification began whose failure is not yet on file. -/
def startOf (username : String) : Attempt → Option ℚ
  | .verifying other start | .failed other start | .recording other start _ =>
      if other = username then some start else none
  | _ => none

def startedSince (username : String) (a : ℚ) (attempt : Attempt) : Bool :=
  (startOf username attempt).any (a ≤ ·)

/-- Let through by the check and not yet recorded. -/
def inFlight (username : String) (attempt : Attempt) : Bool :=
  waits username attempt || (startOf username attempt).isSome

def startsOf (username : String) (starts : List (String × ℚ)) : List ℚ :=
  (starts.filter (·.1 == username)).map (·.2)

/-- However the attempts overlap, the user's verifications that start within an
interval shorter than both the window and the lockout number at most `max`. -/
def VerificationsBounded (limits : Limits) (username : String) (world : World) : Prop :=
  ∀ a b, Short limits (b - a) →
    (startsOf username world.starts).countP (fun t => a ≤ t && t ≤ b) ≤ limits.max

/-- The check lets nobody through where the failures that count and the attempts
in flight already make up `max`, and no verification of the user begins between
the clock reading of a failure and its record. -/
def Spaced (limits : Limits) (username : String) (world : World) : Event → Prop
  | .act i .check => ∀ reading, world.attempts[i]? = some (.checking username reading) →
      isLimited world.limiter reading username = false →
      (recent limits world.now (stateOf world.limiter username).failures).length +
        world.attempts.countP (inFlight username) < limits.max
  | .act i .record => ∀ start reading,
      world.attempts[i]? = some (.recording username start reading) →
      ∀ t, (username, t) ∈ world.starts → t ≤ reading
  | _ => True

def PacedFor (limits : Limits) (username : String) (world : World) : Prop :=
  Paced limits world.now (world.limiter.get? username) (startsOf username world.starts)
    (world.attempts.countP (waits username))
    (fun a => world.attempts.countP (startedSince username a))

theorem mem_startsOf {username : String} {starts : List (String × ℚ)} {t : ℚ} :
    t ∈ startsOf username starts ↔ (username, t) ∈ starts := by
  simp [startsOf]

theorem startOf_of_waits {username : String} {attempt : Attempt}
    (h : waits username attempt = true) : startOf username attempt = none := by
  cases attempt with
  | admitted other => rfl
  | _ => cases h

theorem countP_inFlight (username : String) (attempts : List Attempt) :
    attempts.countP (inFlight username) = attempts.countP (waits username) +
      attempts.countP fun attempt => (startOf username attempt).isSome := by
  induction attempts with
  | nil => rfl
  | cons attempt rest ih =>
      rw [List.countP_cons, List.countP_cons, List.countP_cons, ih, inFlight]
      cases hwaits : waits username attempt with
      | true =>
          rw [startOf_of_waits hwaits]
          simp only [Option.isSome_none, Bool.or_false, if_true, Bool.false_eq_true, if_false]
          omega
      | false =>
          simp only [Bool.false_or, Bool.false_eq_true, if_false]
          omega

theorem countP_startedSince_le (username : String) (attempts : List Attempt) (a : ℚ) :
    attempts.countP (startedSince username a) ≤
      attempts.countP fun attempt => (startOf username attempt).isSome := by
  apply List.countP_mono_left
  intro attempt _ hsince
  cases hstart : startOf username attempt with
  | none => simp [startedSince, hstart] at hsince
  | some t => rfl

theorem countP_set_add {attempts : List Attempt} {i : Nat} {old : Attempt}
    (hget : attempts[i]? = some old) (moved : Attempt) (p : Attempt → Bool) :
    (attempts.set i moved).countP p + (p old).toNat = attempts.countP p + (p moved).toNat := by
  have htoNat (b : Bool) : (if b then 1 else 0) = b.toNat := by cases b <;> rfl
  induction attempts generalizing i with
  | nil => cases hget
  | cons attempt rest ih =>
      cases i with
      | zero =>
          cases hget
          rw [List.set_cons_zero, List.countP_cons, List.countP_cons, htoNat, htoNat]
          omega
      | succ i =>
          have := ih hget
          rw [List.set_cons_succ, List.countP_cons, List.countP_cons]
          omega

/-- A move that changes nothing for the user's account. -/
theorem PacedFor.quiet {limits : Limits} {username : String} {world next : World} {i : Nat}
    {old moved : Attempt} (h : PacedFor limits username world)
    (hget : world.attempts[i]? = some old) (hset : next.attempts = world.attempts.set i moved)
    (hnow : next.now = world.now)
    (hlimiter : next.limiter.get? username = world.limiter.get? username)
    (hstarts : startsOf username next.starts = startsOf username world.starts)
    (hwaits : waits username moved = waits username old)
    (hstart : startOf username moved = startOf username old) :
    PacedFor limits username next := by
  have hcount (p : Attempt → Bool) (hp : p moved = p old) :
      next.attempts.countP p = world.attempts.countP p := by
    have := countP_set_add hget moved p
    rw [hset]
    rw [hp] at this
    omega
  unfold PacedFor
  rw [hnow, hlimiter, hstarts, hcount _ hwaits]
  have hsince : (fun a => next.attempts.countP (startedSince username a)) =
      fun a => world.attempts.countP (startedSince username a) :=
    funext fun a => hcount _ (by rw [startedSince, startedSince, hstart])
  rw [hsince]
  exact h

theorem paced_check {limits : Limits} {username other : String} {world : World} {i : Nat}
    {reading : ℚ} (h : PacedFor limits username world) (hsound : Sound world)
    (hget : world.attempts[i]? = some (.checking other reading))
    (hguard : Spaced limits username world (.act i .check)) :
    PacedFor limits username { world with
      attempts := world.attempts.set i
        (if isLimited world.limiter reading other then .done else .admitted other) } := by
  cases hlimited : isLimited world.limiter reading other with
  | true => exact h.quiet hget rfl rfl rfl rfl rfl rfl
  | false =>
      by_cases hother : other = username
      · subst hother
        have hreading : reading ≤ world.now :=
          hsound.attempts _ (List.mem_of_getElem? hget)
        have hroom := hguard reading hget hlimited
        rw [countP_inFlight] at hroom
        have hwaiting : (world.attempts.set i (.admitted other)).countP (waits other) =
            world.attempts.countP (waits other) + 1 := by
          simpa [waits] using countP_set_add hget (.admitted other) (waits other)
        have hsince := fun a => countP_set_add hget (.admitted other) (startedSince other a)
        exact Paced.admit h hreading hlimited (countP_startedSince_le other world.attempts) hroom
          hwaiting hsince
      · exact h.quiet hget rfl rfl rfl rfl (by simp [waits, hother]) rfl

theorem paced_start {limits : Limits} {username other : String} {world : World} {i : Nat}
    (h : PacedFor limits username world)
    (hget : world.attempts[i]? = some (.admitted other)) :
    PacedFor limits username { world with
      attempts := world.attempts.set i (.verifying other world.now)
      starts := (other, world.now) :: world.starts } := by
  by_cases hother : other = username
  · subst hother
    have hwaiting : (world.attempts.set i (.verifying other world.now)).countP (waits other) + 1 =
        world.attempts.countP (waits other) := by
      simpa [waits] using countP_set_add hget (.verifying other world.now) (waits other)
    have hsince := fun a =>
      countP_set_add hget (.verifying other world.now) (startedSince other a)
    have hstarts : startsOf other ((other, world.now) :: world.starts) =
        world.now :: startsOf other world.starts := by simp [startsOf]
    unfold PacedFor
    rw [hstarts]
    refine Paced.start h hwaiting.symm fun a ha => ?_
    have hbegun := hsince a
    simp only [startedSince, startOf, if_true, Option.any_some, decide_eq_true ha,
      Option.any_none] at hbegun
    exact hbegun
  · have hstarts : startsOf username ((other, world.now) :: world.starts) =
        startsOf username world.starts := by simp [startsOf, hother]
    exact h.quiet hget rfl rfl rfl hstarts (by simp [waits, hother]) (by simp [startOf, hother])

theorem paced_abort {limits : Limits} {username other : String} {world : World} {i : Nat}
    (h : PacedFor limits username world)
    (hget : world.attempts[i]? = some (.admitted other)) :
    PacedFor limits username { world with attempts := world.attempts.set i .done } := by
  have hwaiting : (world.attempts.set i .done).countP (waits username) ≤
      world.attempts.countP (waits username) :=
    (Nat.le_add_right ..).trans (countP_set_add hget .done (waits username)).le
  have hsince := fun a => countP_set_add hget .done (startedSince username a)
  exact Paced.fewer h hwaiting fun a => (hsince a).ge

theorem paced_record {limits : Limits} {username other : String} {world : World} {i : Nat}
    {start reading : ℚ} (h : PacedFor limits username world) (hsound : Sound world)
    (hget : world.attempts[i]? = some (.recording other start reading))
    (hguard : Spaced limits username world (.act i .record)) (locks : List (String × ℚ)) :
    PacedFor limits username { world with
      attempts := world.attempts.set i .done
      limiter := recordFailure limits world.limiter reading other
      locks := locks } := by
  by_cases hother : other = username
  · subst hother
    obtain ⟨hstart, hreading⟩ : start ≤ reading ∧ reading ≤ world.now :=
      hsound.attempts _ (List.mem_of_getElem? hget)
    have hwaiting := countP_set_add hget .done (waits other)
    have hsince := fun a => countP_set_add hget .done (startedSince other a)
    simp only [startedSince, startOf, if_true, Option.any_some, Option.any_none] at hsince
    unfold PacedFor
    rw [get?_recordFailure, if_pos rfl, show (world.attempts.set i .done).countP (waits other) =
      world.attempts.countP (waits other) from hwaiting]
    refine Paced.record h hstart hreading
      (fun t ht => hguard start reading hget t (mem_startsOf.mp ht)) (fun a ha => ?_)
      (fun a ha => ?_)
    · have hcount := hsince a
      rw [decide_eq_true ha] at hcount
      exact hcount.symm
    · have hcount := hsince a
      rw [decide_eq_false (not_le.mpr ha)] at hcount
      exact hcount.ge
  · have hlimiter := (get?_recordFailure limits world.limiter reading other username).trans
      (if_neg (Ne.symm hother))
    exact h.quiet hget rfl rfl hlimiter rfl rfl (by simp [startOf, hother])

theorem paced_attemptStep {limits : Limits} {username : String} {world next : World} {i : Nat}
    {attempt : Attempt} {act : Act} (h : PacedFor limits username world) (hsound : Sound world)
    (hget : world.attempts[i]? = some attempt)
    (hguard : Spaced limits username world (.act i act))
    (hstep : attemptStep limits world i attempt act = some next)
    (hfailing : username ∉ next.succeeded) : PacedFor limits username next := by
  unfold attemptStep at hstep
  split at hstep <;> cases hstep
  · exact paced_check h hsound hget hguard
  · exact paced_start h hget
  · exact paced_abort h hget
  · rename_i other start ok
    cases ok with
    | false => exact h.quiet hget rfl rfl rfl rfl rfl rfl
    | true =>
        have hother : other ≠ username := fun heq => hfailing (heq ▸ List.mem_cons_self ..)
        exact h.quiet hget rfl rfl rfl rfl rfl (by simp [startOf, hother])
  · exact h.quiet hget rfl rfl rfl rfl rfl rfl
  · exact paced_record h hsound hget hguard _
  · rename_i other
    have hother : username ≠ other := by
      rintro rfl
      exact hfailing (hsound.attempts _ (List.mem_of_getElem? hget))
    have hlimiter := (get?_recordSuccess world.limiter other username).trans (if_neg hother)
    exact h.quiet hget rfl rfl hlimiter rfl rfl rfl

theorem succeeded_step {limits : Limits} {world next : World} {event : Event}
    (hsound : Sound world) (hstep : step limits world event = some next) :
    world.succeeded ⊆ next.succeeded := by
  cases event with
  | act i act =>
      obtain ⟨attempt, hget, hact⟩ := Option.bind_eq_some_iff.mp hstep
      exact (attemptStep_spec (hsound.attempts _ (List.mem_of_getElem? hget)) hact).2.2.1
  | tick _ | reapClock | reap =>
      simp only [step] at hstep
      split at hstep <;> cases hstep
      exact List.Subset.refl _
  | ask _ =>
      cases hstep
      exact List.Subset.refl _

theorem paced_step {limits : Limits} {username : String} {world next : World} {event : Event}
    (h : PacedFor limits username world) (hsound : Sound world)
    (hguard : Spaced limits username world event) (hstep : step limits world event = some next)
    (hfailing : username ∉ next.succeeded) : PacedFor limits username next := by
  cases event with
  | tick later =>
      simp only [step] at hstep
      split at hstep <;> cases hstep
      exact Paced.later h ‹_›
  | ask other =>
      cases hstep
      have hcount (p : Attempt → Bool) (hp : p (.checking other world.now) = false) :
          (world.attempts ++ [Attempt.checking other world.now]).countP p =
            world.attempts.countP p := by
        rw [List.countP_append, List.countP_singleton, hp]
        rfl
      have hwaiting := hcount (waits username) rfl
      have hsince := fun a => hcount (startedSince username a) rfl
      exact Paced.fewer h hwaiting.le fun a => (hsince a).ge
  | reapClock =>
      simp only [step] at hstep
      split at hstep <;> cases hstep
      exact h
  | reap =>
      simp only [step] at hstep
      split at hstep <;> cases hstep
      rename_i reading hreading
      have hnow := hsound.reaper reading hreading
      unfold PacedFor at h ⊢
      rw [get?_reap]
      cases hget : world.limiter.get? username with
      | none => rwa [hget] at h
      | some state =>
          rw [hget] at h
          cases hstale : state.stale limits reading with
          | false => rwa [Option.filter_some_pos (by simp [hstale])]
          | true =>
              rw [Option.filter_some_neg (by simp [hstale])]
              exact Paced.reaped h hnow hstale
  | act i act =>
      obtain ⟨attempt, hget, hact⟩ := Option.bind_eq_some_iff.mp hstep
      exact paced_attemptStep h hsound hget hguard hact hfailing

/-- What holds in every state of a spaced run: a user who has not succeeded is
accounted for. -/
structure Kept (limits : Limits) (username : String) (world : World) : Prop where
  sound : Sound world
  paced : username ∉ world.succeeded → PacedFor limits username world

theorem kept_start (limits : Limits) (username : String) (now : ℚ) :
    Kept limits username (.start now) :=
  ⟨sound_start now, fun _ => ⟨nofun, fun _ _ _ => .inr (Nat.zero_le _),
    fun _ _ _ => Nat.zero_le _, fun _ _ _ => Nat.zero_le _⟩⟩

theorem kept_step {limits : Limits} {username : String} {world next : World} {event : Event}
    (h : Kept limits username world) (hguard : Spaced limits username world event)
    (hstep : step limits world event = some next) : Kept limits username next where
  sound := sound_step h.sound hstep
  paced hfailing := by
    have hbefore := h.paced fun hmem => hfailing (succeeded_step h.sound hstep hmem)
    exact paced_step hbefore h.sound hguard hstep hfailing

/-- Spaced attempts that all fail meet the bound. -/
theorem bounded_of_spaced {limits : Limits} {username : String} {now : ℚ} {events : List Event}
    {finish : World}
    (hrun : GuardedRun (step limits) (Spaced limits username) (.start now) events finish)
    (hfailing : username ∉ finish.succeeded) : VerificationsBounded limits username finish := by
  have hkept := hrun.invariant
    (fun world event next h hguard hstep => kept_step h hguard hstep)
    (kept_start limits username now)
  exact (hkept.paced hfailing).bounded

/-- One guess that fails and one that meets the lock it has set. -/
def inTurn : List Event :=
  [.ask "alice", .act 0 .check, .act 0 .start, .tick 11, .act 0 (.verified false),
    .act 0 .readClock, .act 0 .record, .ask "alice", .act 1 .check]

def atOnce : List Event :=
  [.ask "alice", .ask "alice", .act 0 .check, .act 1 .check, .act 0 .start, .act 1 .start]

theorem bounded_of_spaced_inTurn :
    ∃ finish, GuardedRun (step strict) (Spaced strict "alice") (.start 10) inTurn finish ∧
      finish.attempts = [.done, .done] ∧ VerificationsBounded strict "alice" finish := by
  have hspaced : ∃ finish, GuardedRun (step strict) (Spaced strict "alice") (.start 10) inTurn
      finish ∧ finish.attempts = [.done, .done] ∧ finish.succeeded = [] := by
    refine ⟨_, .cons trivial rfl (.cons ?_ rfl (.cons trivial rfl (.cons trivial rfl
      (.cons trivial rfl (.cons trivial rfl (.cons ?_ rfl (.cons trivial rfl
      (.cons ?_ rfl (.nil _))))))))), ?_, rfl⟩
    · intro reading _ _
      decide +kernel
    · intro start reading hget t ht
      cases hget
      cases ht with
      | head => decide +kernel
      | tail _ ht => cases ht
    · intro reading _ _
      decide +kernel
    · decide +kernel
  obtain ⟨finish, hrun, hdone, hfailing⟩ := hspaced
  exact ⟨finish, hrun, hdone, bounded_of_spaced hrun (by simp [hfailing])⟩

theorem atOnce_exceeds :
    ∃ finish, Run (step strict) (.start 10) atOnce finish ∧
      startsOf "alice" finish.starts = [10, 10] ∧ "alice" ∉ finish.succeeded ∧
      ¬ VerificationsBounded strict "alice" finish := by
  refine ⟨_, run_of_exec rfl, rfl, nofun, ?_⟩
  intro h
  have := h 10 10 ⟨by decide +kernel, by decide +kernel⟩
  exact absurd this (by decide +kernel)

end Vnctlsd.Bridge.BruteForce
