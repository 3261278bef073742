import Mathlib.Algebra.Order.Ring.Rat
import Mathlib.Tactic.Linarith
import Mathlib.Tactic.Ring
import Vnctlsd.Worker.SockReadline

/-! The reading phase of a login at the bridge with its clock.  `settimeout` bounds
each `recv`, so the wait starts anew with every byte.  The sends of the echo, which
stand outside of the `try`, are taken to succeed at once. -/
namespace Vnctlsd.Bridge.LoginDeadline
open Vnctlsd.Python
open Worker.SockReadline (Line readline maxLine)

/-- A byte and the time it reaches the bridge, counted from the call of `settimeout`. -/
structure Arrival where
  time : ℚ
  byte : UInt8
  deriving DecidableEq

structure Schedule where
  arrivals : List Arrival
  inOrder : arrivals.Pairwise fun earlier later => earlier.time ≤ later.time

inductive SockError where
  | timeoutError
  | other
  deriving DecidableEq

/-- `TimeoutError` is one of them, like every error of a socket. -/
def SockError.isOSError : SockError → Bool
  | .timeoutError | .other => true

/-- How a call of `_sock_readline` ends, when, and what is still to come. -/
structure Read where
  result : Except SockError (Option (List UInt8))
  now : ℚ
  rest : List Arrival
  deriving DecidableEq

/-- `except OSError: return None`. -/
def Read.ofError (e : SockError) (now : ℚ) (rest : List Arrival) : Read :=
  if e.isOSError then ⟨.ok none, now, rest⟩ else ⟨.error e, now, rest⟩

/-- `_sock_readline` at the time `now`; a byte that has come already is read at once. -/
def sockReadline (timeout : ℚ) (maxLen : Nat) (now : ℚ) (text : List UInt8) :
    List Arrival → Read
  | [] => .ofError .timeoutError (now + timeout) []
  | a :: rest =>
      if now + timeout < a.time then .ofError .timeoutError (now + timeout) (a :: rest)
      else
        let now := max now a.time
        let b := a.byte
        if b = 0x0d ∨ b = 0x0a then ⟨.ok (some text), now, rest⟩
        else if b = 0x7f ∨ b = 0x08 then sockReadline timeout maxLen now text.dropLast rest
        else if b = 0x03 then ⟨.ok none, now, rest⟩
        else if text.length < maxLen then sockReadline timeout maxLen now (text ++ [b]) rest
        else sockReadline timeout maxLen now text rest

/-- What the reading phase of `_authenticate` comes to: both lines, `None`, or an
exception. -/
inductive Reading where
  | credentials (username : String) (password : List UInt8)
  | nobody
  | raised (e : SockError)
  deriving DecidableEq

structure Phase where
  result : Reading
  endsAt : ℚ
  deriving DecidableEq

def passwordPhase (timeout : ℚ) (username : String) (now : ℚ) (arrivals : List Arrival) : Phase :=
  let read := sockReadline timeout maxLine now [] arrivals
  match read.result with
  | .error e => ⟨.raised e, read.now⟩
  | .ok none => ⟨.nobody, read.now⟩
  | .ok (some password) => ⟨.credentials username password, read.now⟩

/-- `_authenticate` up to the check of the credentials; the prompts go out at once. -/
def authenticate (decode : List UInt8 → String) (timeout : ℚ) (schedule : Schedule) : Phase :=
  let read := sockReadline timeout maxLine 0 [] schedule.arrivals
  match read.result with
  | .error e => ⟨.raised e, read.now⟩
  | .ok none => ⟨.nobody, read.now⟩
  | .ok (some text) =>
      if text = [] then ⟨.nobody, read.now⟩
      else
        let username := Text.strip (decode text)
        if username = "" then ⟨.nobody, read.now⟩
        else passwordPhase timeout username read.now read.rest

/-- What the client is told at the end of the reading phase, and whether its
connection is closed then. -/
structure Handled where
  told : List String
  closed : Bool
  deriving DecidableEq

def loginTimeout : String := "\r\n[Login timeout.]\r\n"

/-- `_handle_connection` around the reading phase. -/
def handleConnection : Reading → Handled
  | .raised .timeoutError => ⟨[loginTimeout], true⟩
  | .raised .other | .nobody => ⟨[], true⟩
  | .credentials _ _ => ⟨[], false⟩

/-- The bytes that have come by then. -/
def bytesBy (time : ℚ) (arrivals : List Arrival) : List UInt8 :=
  (arrivals.filter fun a => a.time ≤ time).map Arrival.byte

/-- The first two lines of these bytes are whole. -/
def LinesComplete (bytes : List UInt8) : Prop :=
  ∃ username password, (readline false maxLine [] bytes).result = .line username ∧
    (readline false maxLine [] (readline false maxLine [] bytes).rest).result = .line password

/-- If the lines are not there at the deadline, the login has by then been broken off
with a `TimeoutError`, and the client has been told. -/
def MeetsDeadline (decode : List UInt8 → String) (timeout : ℚ) (schedule : Schedule) : Prop :=
  ¬ LinesComplete (bytesBy timeout schedule.arrivals) →
    (authenticate decode timeout schedule).endsAt ≤ timeout ∧
      (authenticate decode timeout schedule).result = .raised .timeoutError ∧
      handleConnection (authenticate decode timeout schedule).result = ⟨[loginTimeout], true⟩

/-- No error of `recv` leaves `_sock_readline`. -/
theorem sockReadline_ok (timeout : ℚ) (maxLen : Nat) (now : ℚ) (text : List UInt8)
    (arrivals : List Arrival) :
    ∃ found, (sockReadline timeout maxLen now text arrivals).result = .ok found := by
  induction arrivals generalizing now text with
  | nil => exact ⟨none, rfl⟩
  | cons a rest ih =>
      rw [sockReadline]
      split
      · exact ⟨none, rfl⟩
      · dsimp only
        split
        · exact ⟨some text, rfl⟩
        · split
          · exact ih ..
          · split
            · exact ⟨none, rfl⟩
            · split
              · exact ih ..
              · exact ih ..

theorem authenticate_not_raised (decode : List UInt8 → String) (timeout : ℚ)
    (schedule : Schedule) (e : SockError) :
    (authenticate decode timeout schedule).result ≠ .raised e := by
  unfold authenticate
  dsimp only
  obtain ⟨found, hfound⟩ := sockReadline_ok timeout maxLine 0 [] schedule.arrivals
  rw [hfound]
  cases found with
  | none => exact fun h => by cases h
  | some text =>
      dsimp only
      split
      · exact fun h => by cases h
      · split
        · exact fun h => by cases h
        · unfold passwordPhase
          dsimp only
          obtain ⟨second, hsecond⟩ := sockReadline_ok timeout maxLine
            (sockReadline timeout maxLine 0 [] schedule.arrivals).now []
            (sockReadline timeout maxLine 0 [] schedule.arrivals).rest
          rw [hsecond]
          cases second <;> exact fun h => by cases h

/-- The deadline is met only where there is nothing to meet: both lines are there. -/
theorem meetsDeadline_iff (decode : List UInt8 → String) (timeout : ℚ) (schedule : Schedule) :
    MeetsDeadline decode timeout schedule ↔
      LinesComplete (bytesBy timeout schedule.arrivals) := by
  constructor
  · intro h
    by_contra hincomplete
    exact authenticate_not_raised decode timeout schedule _ (h hincomplete).2.1
  · exact fun hcomplete hincomplete => absurd hcomplete hincomplete

theorem max_le_sockReadline {timeout : ℚ} {maxLen : Nat} {now : ℚ} {a : Arrival}
    {rest : List Arrival} (hsoon : ¬ now + timeout < a.time)
    (hrest : ∀ now text, now ≤ (sockReadline timeout maxLen now text rest).now)
    (text : List UInt8) :
    max now a.time ≤ (sockReadline timeout maxLen now text (a :: rest)).now := by
  rw [sockReadline, if_neg hsoon]
  dsimp only
  split
  · exact le_rfl
  · split
    · exact hrest ..
    · split
      · exact le_rfl
      · split
        · exact hrest ..
        · exact hrest ..

theorem now_le_sockReadline {timeout : ℚ} (htimeout : 0 ≤ timeout) (maxLen : Nat) (now : ℚ)
    (text : List UInt8) (arrivals : List Arrival) :
    now ≤ (sockReadline timeout maxLen now text arrivals).now := by
  induction arrivals generalizing now text with
  | nil => exact le_add_of_nonneg_right htimeout
  | cons a rest ih =>
      by_cases hsoon : now + timeout < a.time
      · rw [sockReadline, if_pos hsoon]
        exact le_add_of_nonneg_right htimeout
      · exact (le_max_left ..).trans (max_le_sockReadline hsoon ih text)

/-- The clock after these arrivals: it stands at the latest of them, if any is late. -/
structure Clock (arrivals : List Arrival) (now later : ℚ) : Prop where
  onward : now ≤ later
  passed : ∀ a ∈ arrivals, a.time ≤ later
  reached : later = now ∨ ∃ a ∈ arrivals, later = a.time

theorem Clock.cons {arrivals : List Arrival} {a : Arrival} {now later : ℚ}
    (h : Clock arrivals (max now a.time) later) : Clock (a :: arrivals) now later where
  onward := (le_max_left ..).trans h.onward
  passed := List.forall_mem_cons.mpr ⟨(le_max_right ..).trans h.onward, h.passed⟩
  reached := by
    rcases h.reached with hmax | ⟨b, hb, hlater⟩
    · rcases max_choice now a.time with hnow | htime
      · exact .inl (hmax.trans hnow)
      · exact .inr ⟨a, List.mem_cons_self .., hmax.trans htime⟩
    · exact .inr ⟨b, List.mem_cons_of_mem _ hb, hlater⟩

/-- How a call goes on after `front`, by what the bytes of `front` make of it. -/
def After (timeout : ℚ) (maxLen : Nat) (now : ℚ) (front back : List Arrival) (read : Read) :
    Line → List UInt8 → Prop
  | .line text, rest => ∃ taken left later, front = taken ++ left ∧ left.map Arrival.byte = rest ∧
      Clock taken now later ∧ read = ⟨.ok (some text), later, left ++ back⟩
  | .interrupted, _ => ∃ taken left later, front = taken ++ left ∧ Clock taken now later ∧
      read = ⟨.ok none, later, left ++ back⟩
  | .waiting text, _ => ∃ later, Clock front now later ∧
      read = sockReadline timeout maxLen later text back

theorem After.cons {timeout : ℚ} {maxLen : Nat} {now : ℚ} {front back : List Arrival}
    {read : Read} {line : Line} {rest : List UInt8} {a : Arrival}
    (h : After timeout maxLen (max now a.time) front back read line rest) :
    After timeout maxLen now (a :: front) back read line rest := by
  cases line with
  | line text =>
      obtain ⟨taken, left, later, rfl, hrest, hclock, hread⟩ := h
      exact ⟨a :: taken, left, later, rfl, hrest, hclock.cons, hread⟩
  | interrupted =>
      obtain ⟨taken, left, later, rfl, hclock, hread⟩ := h
      exact ⟨a :: taken, left, later, rfl, hclock.cons, hread⟩
  | waiting text =>
      obtain ⟨later, hclock, hread⟩ := h
      exact ⟨later, hclock.cons, hread⟩

/-- No `recv` times out on bytes that come within the first `timeout` seconds. -/
theorem after_sockReadline {timeout : ℚ} (maxLen : Nat) {now : ℚ} (hnow : 0 ≤ now)
    (text : List UInt8) {front : List Arrival} (hfront : ∀ a ∈ front, a.time ≤ timeout)
    (back : List Arrival) :
    After timeout maxLen now front back (sockReadline timeout maxLen now text (front ++ back))
      (readline false maxLen text (front.map Arrival.byte)).result
      (readline false maxLen text (front.map Arrival.byte)).rest := by
  induction front generalizing now text with
  | nil => exact ⟨now, ⟨le_rfl, by simp, .inl rfl⟩, rfl⟩
  | cons a front ih =>
      obtain ⟨ha, hfront⟩ := List.forall_mem_cons.mp hfront
      have hsoon : ¬ now + timeout < a.time := by linarith
      have hmax : 0 ≤ max now a.time := hnow.trans (le_max_left ..)
      have hclock : Clock [a] now (max now a.time) :=
        Clock.cons ⟨le_rfl, by simp, .inl rfl⟩
      rw [List.cons_append, sockReadline, if_neg hsoon, List.map_cons, readline]
      dsimp only
      split
      · exact ⟨[a], front, _, rfl, rfl, hclock, rfl⟩
      · split
        · split
          · rename_i hempty
            rw [hempty, List.dropLast_nil]
            exact (ih hmax [] hfront).cons
          · exact (ih hmax _ hfront).cons
        · split
          · exact ⟨[a], front, _, rfl, hclock, rfl⟩
          · split
            · exact (ih hmax _ hfront).cons
            · exact (ih hmax _ hfront).cons

theorem sockReadline_dry {timeout : ℚ} (maxLen : Nat) {now : ℚ} (text : List UInt8)
    {arrivals : List Arrival} (h : ∀ a ∈ arrivals, now + timeout < a.time) :
    sockReadline timeout maxLen now text arrivals = ⟨.ok none, now + timeout, arrivals⟩ := by
  cases arrivals with
  | nil => rfl
  | cons a rest =>
      rw [sockReadline, if_pos (h a (List.mem_cons_self ..))]
      rfl

/-- A wait that starts after time 0 ends after the deadline. -/
theorem sockReadline_late {timeout : ℚ} (htimeout : 0 < timeout) (maxLen : Nat) {now : ℚ}
    (hnow : 0 < now) (text : List UInt8) {arrivals : List Arrival}
    (h : ∀ a ∈ arrivals, timeout < a.time) :
    timeout < (sockReadline timeout maxLen now text arrivals).now := by
  cases arrivals with
  | nil => exact lt_add_of_pos_left timeout hnow
  | cons a rest =>
      by_cases hsoon : now + timeout < a.time
      · rw [sockReadline, if_pos hsoon]
        exact lt_add_of_pos_left timeout hnow
      · have hread := max_le_sockReadline hsoon
          (fun now text => now_le_sockReadline htimeout.le maxLen now text rest) text
        exact (h a (List.mem_cons_self ..)).trans_le ((le_max_right ..).trans hread)

theorem Clock.le {arrivals : List Arrival} {now later bound : ℚ} (h : Clock arrivals now later)
    (hnow : now ≤ bound) (harrivals : ∀ a ∈ arrivals, a.time ≤ bound) : later ≤ bound := by
  rcases h.reached with rfl | ⟨a, ha, rfl⟩
  · exact hnow
  · exact harrivals a ha

theorem Clock.le_zero_iff {arrivals : List Arrival} {now later : ℚ} (h : Clock arrivals now later) :
    later ≤ 0 ↔ now ≤ 0 ∧ ∀ a ∈ arrivals, a.time ≤ 0 :=
  ⟨fun hlater => ⟨h.onward.trans hlater, fun a ha => (h.passed a ha).trans hlater⟩,
    fun ⟨hnow, harrivals⟩ => h.le hnow harrivals⟩

theorem Schedule.split (schedule : Schedule) (time : ℚ) :
    ∃ back, schedule.arrivals = (schedule.arrivals.filter fun a => a.time ≤ time) ++ back ∧
      ∀ a ∈ back, time < a.time := by
  obtain ⟨arrivals, inOrder⟩ := schedule
  induction arrivals with
  | nil => exact ⟨[], rfl, by simp⟩
  | cons a rest ih =>
      obtain ⟨ha, hrest⟩ := List.pairwise_cons.mp inOrder
      by_cases htime : a.time ≤ time
      · obtain ⟨back, hback, hlate⟩ := ih hrest
        refine ⟨back, ?_, hlate⟩
        rw [List.filter_cons_of_pos (by simpa using htime), List.cons_append]
        exact congrArg (a :: ·) hback
      · have hlate : ∀ b ∈ a :: rest, time < b.time := by
          rintro b hb
          rcases List.mem_cons.mp hb with rfl | hb
          · exact not_le.mp htime
          · exact (not_le.mp htime).trans_le (ha b hb)
        refine ⟨a :: rest, ?_, hlate⟩
        rw [List.filter_eq_nil_iff.mpr (by simpa using hlate), List.nil_append]

/-- These bytes end the reading phase, with a login or without one. -/
def Ends (decode : List UInt8 → String) (bytes : List UInt8) : Prop :=
  match (readline false maxLine [] bytes).result with
  | .interrupted => True
  | .waiting _ => False
  | .line text => text = [] ∨ Text.strip (decode text) = "" ∨
      ∀ held, (readline false maxLine []
        (readline false maxLine [] bytes).rest).result ≠ .waiting held

theorem passwordPhase_over (timeout : ℚ) (username : String) (now : ℚ)
    (arrivals : List Arrival) :
    (passwordPhase timeout username now arrivals).endsAt =
      (sockReadline timeout maxLine now [] arrivals).now := by
  unfold passwordPhase
  dsimp only
  split <;> rfl

/-- Reading that has not ended with the bytes of the first `timeout` seconds goes on, if
one of them came after the start. -/
theorem waiting_over_iff {timeout : ℚ} (htimeout : 0 < timeout) (maxLen : Nat) {later : ℚ}
    (hlater : 0 ≤ later) (text : List UInt8) {back : List Arrival}
    (hback : ∀ a ∈ back, timeout < a.time) :
    (sockReadline timeout maxLen later text back).now ≤ timeout ↔ later ≤ 0 := by
  constructor
  · intro hover
    by_contra hpos
    exact absurd (sockReadline_late htimeout maxLen (not_le.mp hpos) text hback)
      (not_lt.mpr hover)
  · intro hzero
    obtain rfl := le_antisymm hzero hlater
    rw [sockReadline_dry maxLen text (by simpa using hback)]
    exact (zero_add timeout).le

/-- One line is read, or given up, by the deadline exactly when the bytes that have come
by then end it, or the wait began at once and none of them has come since. -/
theorem read_over_iff {timeout : ℚ} (htimeout : 0 < timeout) (maxLen : Nat) {now : ℚ}
    (hnow : 0 ≤ now) (hsoon : now ≤ timeout) (text : List UInt8) {front back : List Arrival}
    (hfront : ∀ a ∈ front, a.time ≤ timeout) (hback : ∀ a ∈ back, timeout < a.time) :
    (sockReadline timeout maxLen now text (front ++ back)).now ≤ timeout ↔
      (∀ held, (readline false maxLen text (front.map Arrival.byte)).result ≠ .waiting held) ∨
        now ≤ 0 ∧ ∀ a ∈ front, a.time ≤ 0 := by
  have hafter := after_sockReadline maxLen hnow text hfront back
  cases hresult : (readline false maxLen text (front.map Arrival.byte)).result with
  | waiting held =>
      rw [hresult] at hafter
      obtain ⟨later, hclock, hread⟩ := hafter
      have hwaits : ¬ ∀ held', Line.waiting held ≠ .waiting held' := fun h => h held rfl
      rw [hread, or_iff_right hwaits, ← hclock.le_zero_iff]
      exact waiting_over_iff htimeout maxLen (hnow.trans hclock.onward) held hback
  | line line =>
      rw [hresult] at hafter
      obtain ⟨taken, left, later, rfl, -, hclock, hread⟩ := hafter
      rw [hread]
      refine iff_of_true (hclock.le hsoon fun a ha => hfront a ?_) (.inl fun held h => by cases h)
      exact List.mem_append_left _ ha
  | interrupted =>
      rw [hresult] at hafter
      obtain ⟨taken, left, later, rfl, hclock, hread⟩ := hafter
      rw [hread]
      refine iff_of_true (hclock.le hsoon fun a ha => hfront a ?_) (.inl fun held h => by cases h)
      exact List.mem_append_left _ ha

theorem now_le_over {timeout : ℚ} (htimeout : 0 ≤ timeout) (decode : List UInt8 → String)
    (schedule : Schedule) :
    (sockReadline timeout maxLine 0 [] schedule.arrivals).now ≤
      (authenticate decode timeout schedule).endsAt := by
  unfold authenticate
  dsimp only
  split
  · exact le_rfl
  · exact le_rfl
  · split
    · exact le_rfl
    · split
      · exact le_rfl
      · rw [passwordPhase_over]
        exact now_le_sockReadline htimeout ..

/-- The reading phase is over at the deadline exactly when the bytes that have come end
it, or none of them has come since the timeout was set. -/
theorem over_le_iff (decode : List UInt8 → String) {timeout : ℚ} (htimeout : 0 < timeout)
    (schedule : Schedule) :
    (authenticate decode timeout schedule).endsAt ≤ timeout ↔
      Ends decode (bytesBy timeout schedule.arrivals) ∨
        ∀ a ∈ schedule.arrivals, a.time ≤ timeout → a.time ≤ 0 := by
  obtain ⟨back, hsplit, hback⟩ := schedule.split timeout
  have hlower := now_le_over htimeout.le decode schedule
  set front := schedule.arrivals.filter fun a => a.time ≤ timeout with hfrontDef
  have hfront : ∀ a ∈ front, a.time ≤ timeout := by
    intro a ha
    simpa using (List.mem_filter.mp ha).2
  have hquiet : (∀ a ∈ schedule.arrivals, a.time ≤ timeout → a.time ≤ 0) ↔
      ∀ a ∈ front, a.time ≤ 0 := by
    simp only [hfrontDef, List.mem_filter, decide_eq_true_eq, and_imp]
  have hafter := after_sockReadline maxLine le_rfl [] hfront back
  rw [← hsplit] at hafter
  rw [hquiet, bytesBy, ← hfrontDef]
  unfold Ends
  cases hfirst : (readline false maxLine [] (front.map Arrival.byte)).result with
  | interrupted =>
      rw [hfirst] at hafter
      obtain ⟨taken, left, later, hfrontSplit, hclock, hread⟩ := hafter
      have htaken : ∀ a ∈ taken, a.time ≤ timeout := fun a ha =>
        hfront a (by rw [hfrontSplit]; exact List.mem_append_left _ ha)
      unfold authenticate
      rw [hread]
      exact iff_of_true (hclock.le htimeout.le htaken) (.inl trivial)
  | waiting text =>
      rw [hfirst] at hafter
      obtain ⟨later, hclock, hread⟩ := hafter
      rw [hread] at hlower
      have hover := waiting_over_iff htimeout maxLine hclock.onward text hback
      rw [hclock.le_zero_iff, and_iff_right le_rfl] at hover
      rw [false_or]
      refine ⟨fun hle => hover.mp (hlower.trans hle), fun hzero => ?_⟩
      obtain rfl := le_antisymm (hclock.le_zero_iff.mpr ⟨le_rfl, hzero⟩) hclock.onward
      unfold authenticate
      rw [hread, sockReadline_dry maxLine text (by simpa using hback)]
      exact (zero_add timeout).le
  | line text =>
      rw [hfirst] at hafter
      obtain ⟨taken, left, later, hfrontSplit, hleft, hclock, hread⟩ := hafter
      rw [hfrontSplit] at hfront ⊢
      obtain ⟨htaken, hleftTimes⟩ := List.forall_mem_append.mp hfront
      have hlater := hclock.le htimeout.le htaken
      unfold authenticate
      rw [hread]
      dsimp only
      by_cases hempty : text = []
      · rw [if_pos hempty]
        exact iff_of_true hlater (.inl (.inl hempty))
      · by_cases hblank : Text.strip (decode text) = ""
        · rw [if_neg hempty, if_pos hblank]
          exact iff_of_true hlater (.inl (.inr (.inl hblank)))
        · -- the second line is read from where the first one ended
          rw [if_neg hempty, if_neg hblank, passwordPhase_over,
            read_over_iff htimeout maxLine hclock.onward hlater [] hleftTimes hback,
            hclock.le_zero_iff, and_iff_right le_rfl, ← List.forall_mem_append, hleft, hfrontSplit]
          simp only [hempty, hblank, false_or]

/-- Bytes at the last moment, one after another. -/
def drip (timeout : ℚ) : Nat → ℚ → List Arrival
  | 0, _ => []
  | n + 1, now => ⟨now + timeout, 0x61⟩ :: drip timeout n (now + timeout)

theorem drip_late {timeout : ℚ} (htimeout : 0 ≤ timeout) (n : Nat) (now : ℚ) :
    ∀ a ∈ drip timeout n now, now + timeout ≤ a.time := by
  induction n generalizing now with
  | zero => simp [drip]
  | succ n ih =>
      refine List.forall_mem_cons.mpr ⟨le_rfl, fun a ha => ?_⟩
      exact (le_add_of_nonneg_right htimeout).trans (ih _ a ha)

def dripping {timeout : ℚ} (htimeout : 0 ≤ timeout) (n : Nat) : Schedule where
  arrivals := drip timeout n 0
  inOrder := by
    generalize (0 : ℚ) = now
    induction n generalizing now with
    | zero => exact .nil
    | succ n ih =>
        refine List.pairwise_cons.mpr ⟨fun a ha => ?_, ih _⟩
        exact (le_add_of_nonneg_right htimeout).trans (drip_late htimeout n _ a ha)

theorem sockReadline_drip {timeout : ℚ} (htimeout : 0 ≤ timeout) (maxLen n : Nat) (now : ℚ)
    (text : List UInt8) :
    sockReadline timeout maxLen now text (drip timeout n now) =
      ⟨.ok none, now + (n + 1) * timeout, []⟩ := by
  induction n generalizing now text with
  | zero =>
      have hend : now + timeout = now + ((0 : Nat) + 1) * timeout := by push_cast; ring
      rw [drip, sockReadline, hend]
      rfl
  | succ n ih =>
      have hmax : max now (now + timeout) = now + timeout :=
        max_eq_right (le_add_of_nonneg_right htimeout)
      have hend : now + timeout + ((n : ℚ) + 1) * timeout =
          now + (((n + 1 : Nat) : ℚ) + 1) * timeout := by push_cast; ring
      rw [drip, sockReadline, if_neg (lt_irrefl _)]
      dsimp only
      rw [if_neg (by decide), if_neg (by decide), if_neg (by decide), hmax, ih, ih, hend, ite_self]

/-- No time bounds the reading phase: every byte buys the client another `timeout`. -/
theorem authenticate_dripping (decode : List UInt8 → String) {timeout : ℚ}
    (htimeout : 0 ≤ timeout) (n : Nat) :
    authenticate decode timeout (dripping htimeout n) = ⟨.nobody, (n + 1) * timeout⟩ := by
  have hread := sockReadline_drip htimeout maxLine n 0 []
  rw [zero_add] at hread
  unfold authenticate dripping
  dsimp only
  rw [hread]

/-- A byte after 20 seconds, one after 40, and no more. -/
def slowClient : Schedule where
  arrivals := [⟨20, 0x61⟩, ⟨40, 0x6c⟩]
  inOrder := by
    rw [List.pairwise_pair]
    norm_num

/-- With 30 seconds to log in, the connection is closed after 70, without a word. -/
theorem slowClient_outlasts_deadline :
    authenticate (fun _ => "al") 30 slowClient = ⟨.nobody, 70⟩ ∧
      ¬ MeetsDeadline (fun _ => "al") 30 slowClient := by
  have hread : authenticate (fun _ => "al") 30 slowClient = ⟨.nobody, 70⟩ := by decide +kernel
  have hbytes : bytesBy 30 slowClient.arrivals = [0x61] := by decide +kernel
  have hwaiting : (readline false maxLine [] [0x61]).result = .waiting [0x61] := by decide
  refine ⟨hread, fun hmeets => ?_⟩
  have hincomplete : ¬ LinesComplete (bytesBy 30 slowClient.arrivals) := by
    rintro ⟨username, password, hfirst, -⟩
    rw [hbytes, hwaiting] at hfirst
    cases hfirst
  have hraised := (hmeets hincomplete).2.1
  rw [hread] at hraised
  cases hraised

end Vnctlsd.Bridge.LoginDeadline
