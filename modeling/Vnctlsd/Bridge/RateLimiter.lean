import Mathlib.Algebra.Order.Ring.Rat
import Mathlib.Tactic.Linarith
import Vnctlsd.Library.Dict
import Vnctlsd.Library.Transducer

/-! The rate limiter of the bridge, which the server's `auth` module repeats, and
what it answers compared with the history it throws away. -/
namespace Vnctlsd.Bridge.RateLimiter
open Vnctlsd.Library Vnctlsd.Library.Transducer

structure Limits where
  max : Nat
  window : ℚ
  lockout : ℚ

structure UserState where
  failures : List ℚ
  lockedUntil : ℚ
  deriving DecidableEq

abbrev Limiter := Dict String UserState

def UserState.fresh : UserState := ⟨[], 0⟩

def isLimited (limiter : Limiter) (now : ℚ) (username : String) : Bool :=
  (limiter.get? username).any fun s => now < s.lockedUntil

/-- The failures that still count. -/
def recent (limits : Limits) (now : ℚ) (failures : List ℚ) : List ℚ :=
  failures.filter fun t => now - t < limits.window

def UserState.record (limits : Limits) (now : ℚ) (s : UserState) : UserState :=
  let failures := recent limits now s.failures ++ [now]
  if limits.max ≤ failures.length then ⟨[], now + limits.lockout⟩ else ⟨failures, s.lockedUntil⟩

def recordFailure (limits : Limits) (limiter : Limiter) (now : ℚ) (username : String) : Limiter :=
  limiter.set username (((limiter.get? username).getD .fresh).record limits now)

def recordSuccess (limiter : Limiter) (username : String) : Limiter := limiter.erase username

def UserState.stale (limits : Limits) (now : ℚ) (s : UserState) : Bool :=
  s.lockedUntil < now && s.failures.all fun t => limits.window < now - t

def reap (limits : Limits) (limiter : Limiter) (now : ℚ) : Limiter :=
  limiter.eraseMany ((limiter.entries.filter fun entry => entry.2.stale limits now).map (·.1))

inductive Op where
  | isLimited (username : String)
  | recordFailure (username : String)
  | recordSuccess (username : String)
  | reap

/-- An operation and the time it is carried out at. -/
structure Call where
  now : ℚ
  op : Op

/-- What `is_limited` says, and of whom. -/
abbrev Answer := String × Bool

def limiterMachine (limits : Limits) : Machine Limiter Call Answer where
  next limiter call :=
    match call.op with
    | .isLimited _ => limiter
    | .recordFailure username => recordFailure limits limiter call.now username
    | .recordSuccess username => recordSuccess limiter username
    | .reap => reap limits limiter call.now
  reply limiter call :=
    match call.op with
    | .isLimited username => some (username, isLimited limiter call.now username)
    | _ => none

def answers (limits : Limits) (calls : List Call) : List Answer :=
  (limiterMachine limits).replies .empty calls

/-- Of a user's failures, newest first, those since the last lock. -/
def sinceLock (limits : Limits) : List ℚ → List ℚ
  | [] => []
  | now :: earlier =>
      let pending := now :: sinceLock limits earlier
      if limits.max ≤ (recent limits now pending).length then [] else pending

/-- The times at which these failures have locked the user. -/
def locks (limits : Limits) : List ℚ → List ℚ
  | [] => []
  | now :: earlier =>
      if limits.max ≤ (recent limits now (now :: sinceLock limits earlier)).length then
        now :: locks limits earlier
      else locks limits earlier

def locked (limits : Limits) (failures : List ℚ) (now : ℚ) : Bool :=
  (locks limits failures).any fun t => now < t + limits.lockout

/-- Every user's failures since the last success, newest first. -/
abbrev History := String → List ℚ

def historyMachine (limits : Limits) : Machine History Call Answer where
  next history call :=
    match call.op with
    | .recordFailure username =>
        Function.update history username (call.now :: history username)
    | .recordSuccess username => Function.update history username []
    | .isLimited _ | .reap => history
  reply history call :=
    match call.op with
    | .isLimited username => some (username, locked limits (history username) call.now)
    | _ => none

/-- The answers of a limiter that keeps the whole history. -/
def historyAnswers (limits : Limits) (calls : List Call) : List Answer :=
  (historyMachine limits).replies (fun _ => []) calls

def Op.isReap : Op → Bool
  | .reap => true
  | _ => false

/-- Not an operation on another user. -/
def Op.concerns (username : String) : Op → Bool
  | .isLimited other | .recordFailure other | .recordSuccess other => other == username
  | .reap => true

/-- What is kept of a user answers, from `now` on, for all the user's failures. -/
structure Tracks (limits : Limits) (now : ℚ) (s : Option UserState) (failures : List ℚ) :
    Prop where
  past : ∀ t ∈ failures, t ≤ now
  limited : ∀ later, now ≤ later →
    s.any (fun s => later < s.lockedUntil) = locked limits failures later
  pending : ∀ later, now ≤ later →
    (recent limits later (s.getD .fresh).failures).length =
      (recent limits later (sinceLock limits failures)).length

theorem tracks_none (limits : Limits) (now : ℚ) : Tracks limits now none [] :=
  ⟨nofun, fun _ _ => rfl, fun _ _ => rfl⟩

theorem locks_subset {limits : Limits} {failures : List ℚ} {t : ℚ}
    (h : t ∈ locks limits failures) : t ∈ failures := by
  induction failures with
  | nil => exact h
  | cons now earlier ih =>
      rw [locks] at h
      split at h
      · rcases List.mem_cons.mp h with rfl | h
        · exact List.mem_cons_self ..
        · exact List.mem_cons_of_mem _ (ih h)
      · exact List.mem_cons_of_mem _ (ih h)

theorem recent_append (limits : Limits) (now : ℚ) (early late : List ℚ) :
    recent limits now (early ++ late) = recent limits now early ++ recent limits now late :=
  List.filter_append ..

theorem recent_recent {limits : Limits} {now later : ℚ} (h : now ≤ later) (failures : List ℚ) :
    recent limits later (recent limits now failures) = recent limits later failures := by
  unfold recent
  rw [List.filter_filter]
  apply List.filter_congr
  intro t _
  rw [Bool.and_eq_left_iff_imp]
  simp only [decide_eq_true_eq]
  intro ht
  linarith

theorem UserState.record_of_full {limits : Limits} {now : ℚ} {s : UserState}
    (h : limits.max ≤ (recent limits now s.failures).length + 1) :
    s.record limits now = ⟨[], now + limits.lockout⟩ :=
  if_pos (by rwa [List.length_append])

theorem UserState.record_of_open {limits : Limits} {now : ℚ} {s : UserState}
    (h : ¬ limits.max ≤ (recent limits now s.failures).length + 1) :
    s.record limits now = ⟨recent limits now s.failures ++ [now], s.lockedUntil⟩ :=
  if_neg (by rwa [List.length_append])

theorem Tracks.later {limits : Limits} {now later : ℚ} {s : Option UserState}
    {failures : List ℚ} (h : Tracks limits now s failures) (hle : now ≤ later) :
    Tracks limits later s failures where
  past t ht := (h.past t ht).trans hle
  limited after hafter := h.limited after (hle.trans hafter)
  pending after hafter := h.pending after (hle.trans hafter)

/-- What is reaped counts for nothing any more. -/
theorem Tracks.reaped {limits : Limits} {now : ℚ} {s : UserState} {failures : List ℚ}
    (h : Tracks limits now (some s) failures) (hstale : s.stale limits now = true) :
    Tracks limits now none failures := by
  simp only [UserState.stale, Bool.and_eq_true, List.all_eq_true, decide_eq_true_eq] at hstale
  obtain ⟨hunlocked, hold⟩ := hstale
  refine ⟨h.past, fun later hlater => ?_, fun later hlater => ?_⟩
  · rw [← h.limited later hlater]
    have hpassed : ¬ later < s.lockedUntil := by linarith
    simp [hpassed]
  · rw [← h.pending later hlater]
    have hnone : recent limits later s.failures = [] := by
      apply List.filter_eq_nil_iff.mpr
      intro t ht
      have := hold t ht
      rw [decide_eq_true_eq]
      linarith
    rw [Option.getD_some, hnone]
    rfl

theorem Tracks.record {limits : Limits} {now : ℚ} {s : Option UserState} {failures : List ℚ}
    (h : Tracks limits now s failures) (hwindow : 0 < limits.window) (hnow : 0 ≤ now) :
    Tracks limits now (some ((s.getD .fresh).record limits now)) (now :: failures) := by
  have hpast : ∀ t ∈ now :: failures, t ≤ now := by
    intro t ht
    rcases List.mem_cons.mp ht with rfl | ht
    · exact le_rfl
    · exact h.past t ht
  have hself : recent limits now [now] = [now] := by
    simp [recent, hwindow]
  have hsplit : ∀ later (ts : List ℚ), (recent limits later (now :: ts)).length =
      (recent limits later ts).length + (recent limits later [now]).length := by
    intro later ts
    rw [← List.singleton_append, recent_append, List.length_append, Nat.add_comm]
  have hcount : (recent limits now (now :: sinceLock limits failures)).length =
      (recent limits now (s.getD .fresh).failures).length + 1 := by
    rw [hsplit, hself, h.pending now le_rfl]
    rfl
  by_cases hmax : limits.max ≤ (recent limits now (now :: sinceLock limits failures)).length
  · rw [UserState.record_of_full (hcount ▸ hmax)]
    refine ⟨hpast, fun later hlater => ?_, fun later hlater => ?_⟩
    · -- a lock that is still to end ends no later than the new one
      have hearlier : locked limits failures later = true → later < now + limits.lockout := by
        intro hlocked
        obtain ⟨t, ht, hlt⟩ := List.any_eq_true.mp hlocked
        have := h.past t (locks_subset ht)
        rw [decide_eq_true_eq] at hlt
        linarith
      rw [locked, locks, if_pos hmax, List.any_cons, ← locked, Option.any_some]
      exact (Bool.or_eq_left_iff_imp.mpr fun hlocked => decide_eq_true (hearlier hlocked)).symm
    · rw [sinceLock, if_pos hmax]
      rfl
  · rw [UserState.record_of_open (hcount ▸ hmax)]
    refine ⟨hpast, fun later hlater => ?_, fun later hlater => ?_⟩
    · rw [locked, locks, if_neg hmax, ← locked, ← h.limited later hlater]
      cases s with
      | none => simpa [UserState.fresh] using hnow.trans hlater
      | some s => rfl
    · rw [sinceLock, if_neg hmax, hsplit, ← h.pending later hlater, Option.getD_some,
        recent_append, recent_recent hlater, List.length_append]

def Refines (limits : Limits) (now : ℚ) (limiter : Limiter) (history : History) : Prop :=
  0 ≤ now ∧ ∀ username, Tracks limits now (limiter.get? username) (history username)

theorem get?_recordFailure (limits : Limits) (limiter : Limiter) (now : ℚ)
    (username other : String) :
    (recordFailure limits limiter now username).get? other =
      if other = username then some (((limiter.get? username).getD .fresh).record limits now)
      else limiter.get? other :=
  Dict.get?_set ..

theorem get?_recordSuccess (limiter : Limiter) (username other : String) :
    (recordSuccess limiter username).get? other =
      if other = username then none else limiter.get? other :=
  Dict.get?_erase ..

theorem get?_reap (limits : Limits) (limiter : Limiter) (now : ℚ) (username : String) :
    (reap limits limiter now).get? username =
      (limiter.get? username).filter fun s => !s.stale limits now := by
  unfold reap
  rw [Dict.get?_eraseMany]
  cases hget : limiter.get? username with
  | none => simp
  | some s =>
      have hmem := Dict.get?_eq_some_iff.mp hget
      have hkey : username ∈
          (limiter.entries.filter fun entry => entry.2.stale limits now).map (·.1) ↔
            s.stale limits now = true := by
        constructor
        · intro h
          obtain ⟨entry, hentry, rfl⟩ := List.mem_map.mp h
          obtain ⟨hentry, hstale⟩ := List.mem_filter.mp hentry
          rwa [← Dict.value_unique hentry hmem]
        · intro hstale
          exact List.mem_map.mpr ⟨_, List.mem_filter.mpr ⟨hmem, hstale⟩, rfl⟩
      simp only [hkey]
      cases hstale : s.stale limits now with
      | false => exact (Option.filter_some_pos (by simp [hstale])).symm
      | true => exact (Option.filter_some_neg (by simp [hstale])).symm

theorem refines_step {limits : Limits} (hwindow : 0 < limits.window) {now : ℚ}
    {limiter : Limiter} {history : History} {call : Call}
    (h : Refines limits now limiter history) (hle : now ≤ call.now) :
    (limiterMachine limits).reply limiter call = (historyMachine limits).reply history call ∧
      Refines limits call.now ((limiterMachine limits).next limiter call)
        ((historyMachine limits).next history call) := by
  obtain ⟨hzero, htracks⟩ := h
  have hlater := fun username => (htracks username).later hle
  have hcall : 0 ≤ call.now := hzero.trans hle
  obtain ⟨time, op⟩ := call
  cases op with
  | isLimited username =>
      refine ⟨?_, hcall, hlater⟩
      exact congrArg (fun answer => some (username, answer)) ((hlater username).limited time le_rfl)
  | recordFailure username =>
      refine ⟨rfl, hcall, fun other => ?_⟩
      show Tracks limits time ((recordFailure limits limiter time username).get? other)
        (Function.update history username (time :: history username) other)
      rw [get?_recordFailure, Function.update_apply]
      split
      · exact (hlater username).record hwindow hcall
      · exact hlater other
  | recordSuccess username =>
      refine ⟨rfl, hcall, fun other => ?_⟩
      show Tracks limits time ((recordSuccess limiter username).get? other)
        (Function.update history username [] other)
      rw [get?_recordSuccess, Function.update_apply]
      split
      · exact tracks_none limits time
      · exact hlater other
  | reap =>
      refine ⟨rfl, hcall, fun other => ?_⟩
      show Tracks limits time ((reap limits limiter time).get? other) (history other)
      rw [get?_reap]
      have hother := hlater other
      cases hget : limiter.get? other with
      | none =>
          rw [hget] at hother
          exact hother
      | some s =>
          rw [hget] at hother
          cases hstale : s.stale limits time with
          | false =>
              rw [Option.filter_some_pos (by simp [hstale])]
              exact hother
          | true =>
              rw [Option.filter_some_neg (by simp [hstale])]
              exact hother.reaped hstale

/-- The limiter answers as one that forgets nothing. -/
theorem answers_eq_history {limits : Limits} (hwindow : 0 < limits.window) {calls : List Call}
    (hordered : calls.Pairwise (·.now ≤ ·.now)) (hpositive : ∀ call ∈ calls, 0 ≤ call.now) :
    answers limits calls = historyAnswers limits calls := by
  have hstart : Refines limits 0 .empty fun _ => [] :=
    ⟨le_rfl, fun username => tracks_none limits 0⟩
  exact replies_eq (fun now limiter history call (h : Refines limits now limiter history)
    (hle : now ≤ call.now) => refines_step hwindow h hle) hstart hpositive hordered

theorem history_without_reaps (limits : Limits) (calls : List Call) :
    historyAnswers limits (calls.filter fun call => !call.op.isReap) =
      historyAnswers limits calls := by
  have hkeep : ∀ (history history' : History) (call : Call), history = history' →
      (!call.op.isReap) = true →
      ((historyMachine limits).reply history call).filter (fun _ => true) =
          (historyMachine limits).reply history' call ∧
        (historyMachine limits).next history call = (historyMachine limits).next history' call := by
    rintro history _ ⟨now, op⟩ rfl -
    exact ⟨by cases op <;> rfl, rfl⟩
  have hdrop : ∀ (history history' : History) (call : Call), history = history' →
      (!call.op.isReap) = false →
      ((historyMachine limits).reply history call).filter (fun _ => true) = none ∧
        (historyMachine limits).next history call = history' := by
    rintro history _ ⟨now, op⟩ rfl hdrop
    cases op with
    | reap => exact ⟨rfl, rfl⟩
    | _ => cases hdrop
  simpa [historyAnswers] using (replies_restrict hkeep hdrop rfl calls).symm

theorem history_of_user (limits : Limits) (calls : List Call) (username : String) :
    historyAnswers limits (calls.filter fun call => call.op.concerns username) =
      (historyAnswers limits calls).filter (·.1 == username) := by
  have hkeep : ∀ (history history' : History) (call : Call),
      history username = history' username → call.op.concerns username = true →
      ((historyMachine limits).reply history call).filter (·.1 == username) =
          (historyMachine limits).reply history' call ∧
        (historyMachine limits).next history call username =
          (historyMachine limits).next history' call username := by
    rintro history history' ⟨now, op⟩ hsame hkeep
    cases op with
    | reap => exact ⟨rfl, hsame⟩
    | isLimited other | recordFailure other | recordSuccess other =>
        obtain rfl : other = username := eq_of_beq hkeep
        simp [historyMachine, hsame]
  have hdrop : ∀ (history history' : History) (call : Call),
      history username = history' username → call.op.concerns username = false →
      ((historyMachine limits).reply history call).filter (·.1 == username) = none ∧
        (historyMachine limits).next history call username = history' username := by
    rintro history history' ⟨now, op⟩ hsame hdrop
    cases op with
    | reap => cases hdrop
    | isLimited other | recordFailure other | recordSuccess other =>
        have hother : username ≠ other := fun heq => by simp [Op.concerns, heq] at hdrop
        simp [historyMachine, hother, hother.symm, hsame]
  exact (replies_restrict hkeep hdrop rfl calls).symm

/-- The limiter answers as one that forgets nothing; so reaping changes no answer,
and neither does what is done to other users. -/
theorem limiter_refines_history {limits : Limits} (hwindow : 0 < limits.window)
    {calls : List Call} (hordered : calls.Pairwise (·.now ≤ ·.now))
    (hpositive : ∀ call ∈ calls, 0 ≤ call.now) :
    answers limits calls = historyAnswers limits calls ∧
      answers limits (calls.filter fun call => !call.op.isReap) = answers limits calls ∧
      ∀ username, answers limits (calls.filter fun call => call.op.concerns username) =
        (answers limits calls).filter (·.1 == username) := by
  have hall (keep : Call → Bool) :
      answers limits (calls.filter keep) = historyAnswers limits (calls.filter keep) :=
    answers_eq_history hwindow (hordered.filter keep)
      fun call hcall => hpositive call (List.mem_of_mem_filter hcall)
  have hwhole := answers_eq_history hwindow hordered hpositive
  refine ⟨hwhole, ?_, fun username => ?_⟩
  · rw [hall, hwhole, history_without_reaps]
  · rw [hall, hwhole, history_of_user]

def lenient : Limits := ⟨2, 300, 900⟩

def guesses : List Call :=
  [⟨10, .recordFailure "alice"⟩, ⟨20, .recordFailure "alice"⟩, ⟨30, .isLimited "alice"⟩,
    ⟨40, .isLimited "bob"⟩, ⟨920, .reap⟩, ⟨921, .isLimited "alice"⟩]

theorem limiter_refines_history_guesses :
    answers lenient guesses = [("alice", true), ("bob", false), ("alice", false)] ∧
      answers lenient guesses = historyAnswers lenient guesses ∧
      answers lenient (guesses.filter fun call => !call.op.isReap) = answers lenient guesses ∧
      ∀ username, answers lenient (guesses.filter fun call => call.op.concerns username) =
        (answers lenient guesses).filter (·.1 == username) :=
  ⟨by decide +kernel, limiter_refines_history (by decide +kernel) (by decide +kernel)
    (by decide +kernel)⟩

end Vnctlsd.Bridge.RateLimiter
