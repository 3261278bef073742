import Vnctlsd.Library.ByteStream

/-! A loop that calls one reader again and again, does something with what it gets,
and goes on behind an exception that does not end it: what it gets from which place
of the stream. -/
namespace Vnctlsd.Library.ReadLoop
open ByteStream

variable {ρ ε α β σ : Type} {reader : Reader ρ ε α} {ends : ε → Bool}

/-- Whatever the reader raises is of one kind. -/
def Raises (kind : ε → Prop) (reader : Reader ρ ε α) : Prop :=
  ∀ source e next, reader.run source = .raised e next → kind e

theorem raises_pure (kind : ε → Prop) (a : α) : Raises kind (pure a : Reader ρ ε α) := by
  intro source e next h
  cases h

theorem raises_raise {kind : ε → Prop} {e : ε} (he : kind e) :
    Raises kind (Reader.raise e : Reader ρ ε α) := by
  intro source e' next h
  cases h
  exact he

theorem Raises.bind {kind : ε → Prop} (h : Raises kind reader) {second : α → Reader ρ ε β}
    (hsecond : ∀ a, Raises kind (second a)) : Raises kind (reader >>= second) := by
  intro source e next hrun
  cases hfirst : reader.run source with
  | value a middle =>
      rw [Reader.run_bind_value hfirst] at hrun
      exact hsecond a middle e next hrun
  | raised e' middle =>
      rw [Reader.run_bind_raised hfirst] at hrun
      cases hrun
      exact h source e next hfirst
  | blocked =>
      rw [Reader.run_bind_blocked hfirst] at hrun
      cases hrun

theorem raises_recv (kind : ε → Prop) (n : Nat) : Raises kind (recv n : Reader ρ ε _) := by
  intro source e next h
  simp only [recv] at h
  split at h
  · split at h <;> cases h
  · cases h

theorem raises_readExactly {kind : ε → Prop} {ended : ε} (he : kind ended) (fuel n : Nat) :
    Raises kind (readExactly ended fuel n : Reader ρ ε _) := by
  induction fuel generalizing n with
  | zero =>
      cases n with
      | zero => exact raises_pure kind _
      | succ n =>
          intro source e next h
          cases h
  | succ fuel ih =>
      cases n with
      | zero => exact raises_pure kind _
      | succ n =>
          refine (raises_recv kind _).bind fun chunk => ?_
          split
          · exact raises_raise he
          · exact (ih _).bind fun others => raises_pure kind _

/-- The reader gives nothing back to the stream. -/
structure Shrinks (reader : Reader ρ ε α) : Prop where
  value : ∀ source a next, reader.run source = .value a next →
    next.cells.length ≤ source.cells.length
  raised : ∀ source e next, reader.run source = .raised e next →
    next.cells.length ≤ source.cells.length

theorem shrinks_pure (a : α) : Shrinks (pure a : Reader ρ ε α) where
  value source a' next h := by
    cases h
    exact Nat.le_refl _
  raised source e next h := by cases h

theorem shrinks_raise (e : ε) : Shrinks (Reader.raise e : Reader ρ ε α) where
  value source a next h := by cases h
  raised source e' next h := by
    cases h
    exact Nat.le_refl _

theorem shrinks_release (items : List ρ) : Shrinks (Reader.release items : Reader ρ ε Unit) where
  value source a next h := by
    cases h
    exact Nat.le_refl _
  raised source e next h := by cases h

theorem shrinks_ofExcept (result : Except ε α) :
    Shrinks (Reader.ofExcept result : Reader ρ ε α) := by
  cases result with
  | ok a => exact shrinks_pure a
  | error e => exact shrinks_raise e

theorem Shrinks.bind (h : Shrinks reader) {second : α → Reader ρ ε β}
    (hsecond : ∀ a, Shrinks (second a)) : Shrinks (reader >>= second) where
  value source b next hrun := by
    cases hfirst : reader.run source with
    | value a middle =>
        rw [Reader.run_bind_value hfirst] at hrun
        exact Nat.le_trans ((hsecond a).value middle b next hrun) (h.value source a middle hfirst)
    | raised e middle =>
        rw [Reader.run_bind_raised hfirst] at hrun
        cases hrun
    | blocked =>
        rw [Reader.run_bind_blocked hfirst] at hrun
        cases hrun
  raised source e next hrun := by
    cases hfirst : reader.run source with
    | value a middle =>
        rw [Reader.run_bind_value hfirst] at hrun
        exact Nat.le_trans ((hsecond a).raised middle e next hrun) (h.value source a middle hfirst)
    | raised e' middle =>
        rw [Reader.run_bind_raised hfirst] at hrun
        cases hrun
        exact h.raised source e next hfirst
    | blocked =>
        rw [Reader.run_bind_blocked hfirst] at hrun
        cases hrun

theorem shrinks_recv (n : Nat) : Shrinks (recv n : Reader ρ ε _) where
  value source a next h := by
    simp only [recv] at h
    split at h
    · split at h
      · cases h
        exact Nat.le_refl _
      · cases h
    · cases h
      rw [List.length_drop]
      exact Nat.sub_le ..
  raised source e next h := absurd h (raises_recv (fun _ => False) n source e next)

theorem shrinks_readExactly (ended : ε) (fuel n : Nat) :
    Shrinks (readExactly ended fuel n : Reader ρ ε _) := by
  induction fuel generalizing n with
  | zero =>
      cases n with
      | zero => exact shrinks_pure _
      | succ n => exact ⟨fun _ _ _ h => (by cases h), fun _ _ _ h => (by cases h)⟩
  | succ fuel ih =>
      cases n with
      | zero => exact shrinks_pure _
      | succ n =>
          refine (shrinks_recv _).bind fun chunk => ?_
          split
          · exact shrinks_raise _
          · exact (ih _).bind fun others => shrinks_pure _

/-- One turn: what the reader returned, or nothing for an exception. -/
def turn (reader : Reader ρ ε α) (ends : ε → Bool) (source : Source ρ) :
    Option (Option α × Source ρ) :=
  match reader.run source with
  | .value a next => some (some a, next)
  | .raised e next => if ends e then none else some (none, next)
  | .blocked => none

/-- Turns one after another, with what each of them got. -/
inductive Turns (reader : Reader ρ ε α) (ends : ε → Bool) :
    Source ρ → List (Option α) → Source ρ → Prop where
  | nil (source : Source ρ) : Turns reader ends source [] source
  | cons {source middle next : Source ρ} {result : Option α} {results : List (Option α)}
      (hturn : turn reader ends source = some (result, middle))
      (hrest : Turns reader ends middle results next) :
      Turns reader ends source (result :: results) next

/-- The loop gets `a` from a call that finds `left` cells unread.  `after` is what it
does behind each turn, and has no next state where the loop ends there. -/
def Gets (reader : Reader ρ ε α) (ends : ε → Bool) (after : σ → Option α → Option σ) (state : σ)
    (source : Source ρ) (left : Nat) (a : α) : Prop :=
  ∃ results here next state', Turns reader ends source results here ∧
    results.foldlM after state = some state' ∧ here.cells.length = left ∧
    turn reader ends here = some (some a, next)

/-- No turn leaves the stream as long as it was. -/
def Consumes (reader : Reader ρ ε α) (ends : ε → Bool) : Prop :=
  ∀ source result next, turn reader ends source = some (result, next) →
    next.cells.length < source.cells.length

theorem turn_value {source next : Source ρ} {a : α} (h : reader.run source = .value a next) :
    turn reader ends source = some (some a, next) := by
  rw [turn, h]

theorem turn_raised {source next : Source ρ} {e : ε} (h : reader.run source = .raised e next)
    (he : ends e = false) : turn reader ends source = some (none, next) := by
  simp only [turn, h, he, Bool.false_eq_true, if_false]

theorem Turns.length_le (hconsumes : Consumes reader ends) {source next : Source ρ}
    {results : List (Option α)} (h : Turns reader ends source results next) :
    next.cells.length ≤ source.cells.length := by
  induction h with
  | nil => exact Nat.le_refl _
  | cons hturn hrest ih => exact Nat.le_trans ih (Nat.le_of_lt (hconsumes _ _ _ hturn))

theorem Turns.append {source middle next : Source ρ} {first second : List (Option α)}
    (hfirst : Turns reader ends source first middle)
    (hsecond : Turns reader ends middle second next) :
    Turns reader ends source (first ++ second) next := by
  induction hfirst with
  | nil => exact hsecond
  | cons hturn hrest ih => exact .cons hturn (ih hsecond)

section

variable {after : σ → Option α → Option σ} {state : σ} {source next : Source ρ}
  {result : Option α} {left : Nat} {a : α}

/-- What is got behind a turn is got by whatever the loop has become by then. -/
theorem gets_next_iff (hturn : turn reader ends source = some (result, next))
    (hleft : left < source.cells.length) :
    Gets reader ends after state source left a ↔
      ∃ state', after state result = some state' ∧ Gets reader ends after state' next left a := by
  constructor
  · rintro ⟨results, here, last, final, hturns, hfold, hlength, hgot⟩
    cases hturns with
    | nil => exact absurd hlength (Nat.ne_of_gt hleft)
    | cons hfirst hrest =>
        rw [hturn] at hfirst
        cases hfirst
        obtain ⟨state', hstate, hfold⟩ := Option.bind_eq_some_iff.mp hfold
        exact ⟨state', hstate, _, here, last, final, hrest, hfold, hlength, hgot⟩
  · rintro ⟨state', hstate, results, here, last, final, hturns, hfold, hlength, hgot⟩
    refine ⟨result :: results, here, last, final, .cons hturn hturns, ?_, hlength, hgot⟩
    rw [List.foldlM_cons, hstate]
    exact hfold

theorem gets_behind_iff (hconsumes : Consumes reader ends) {results : List (Option α)}
    (hturns : Turns reader ends source results next) (hleft : left ≤ next.cells.length) :
    Gets reader ends after state source left a ↔
      ∃ state', results.foldlM after state = some state' ∧
        Gets reader ends after state' next left a := by
  induction hturns generalizing state with
  | nil =>
      constructor
      · exact fun h => ⟨state, rfl, h⟩
      · rintro ⟨state', ⟨⟩, h⟩
        exact h
  | cons hturn hrest ih =>
      have hbefore := Nat.lt_of_le_of_lt (Nat.le_trans hleft (hrest.length_le hconsumes))
        (hconsumes _ _ _ hturn)
      rw [gets_next_iff hturn hbefore]
      constructor
      · rintro ⟨middle, hmiddle, h⟩
        obtain ⟨final, hfinal, hgets⟩ := (ih hleft).mp h
        refine ⟨final, ?_, hgets⟩
        rw [List.foldlM_cons, hmiddle]
        exact hfinal
      · rintro ⟨final, hfold, hgets⟩
        obtain ⟨middle, hmiddle, hfinal⟩ := Option.bind_eq_some_iff.mp hfold
        exact ⟨middle, hmiddle, (ih hleft).mpr ⟨final, hfinal, hgets⟩⟩

/-- Nothing is got from a place that is behind. -/
theorem not_gets_of_past (hconsumes : Consumes reader ends) (hpast : source.cells.length < left) :
    ¬ Gets reader ends after state source left a := by
  rintro ⟨results, here, next, state', hturns, -, rfl, -⟩
  exact Nat.not_lt.mpr (hturns.length_le hconsumes) hpast

/-- At the place itself the next turn decides. -/
theorem gets_here_iff (hconsumes : Consumes reader ends) :
    Gets reader ends after state source source.cells.length a ↔
      ∃ next, turn reader ends source = some (some a, next) := by
  constructor
  · rintro ⟨results, here, next, state', hturns, -, hlength, hgot⟩
    cases hturns with
    | nil => exact ⟨next, hgot⟩
    | cons hturn hrest =>
        have hlt := Nat.lt_of_le_of_lt (hrest.length_le hconsumes) (hconsumes _ _ _ hturn)
        exact absurd hlength (Nat.ne_of_lt hlt)
  · rintro ⟨next, hturn⟩
    exact ⟨[], source, next, state, .nil source, rfl, rfl, hturn⟩

end

/-- Each turn that finds a cell with `skipped` in front of the stream takes `size` cells, if
they are there, and gets nothing. -/
def Skips (reader : Reader ρ ε α) (ends : ε → Bool) (size : Nat) (skipped : Cell ρ → Prop) :
    Prop :=
  ∀ (source : Source ρ) cell rest, source.cells = cell :: rest → skipped cell →
    size ≤ source.cells.length → ∃ next, turn reader ends source = some (none, next) ∧
      next.cells = source.cells.drop size

variable {size : Nat} {skipped : Cell ρ → Prop}

/-- Over cells that are skipped the loop comes to their end if `size` divides their
number. -/
theorem turns_of_skips (h : Skips reader ends size skipped) (hsize : 0 < size) {count : Nat}
    {front tail : List (Cell ρ)} (hfront : ∀ cell ∈ front, skipped cell)
    (hcount : front.length = size * count) {source : Source ρ}
    (hsource : source.cells = front ++ tail) :
    ∃ finish, Turns reader ends source (List.replicate count none) finish ∧
      finish.cells = tail := by
  induction count generalizing front source with
  | zero =>
      obtain rfl := List.length_eq_zero_iff.mp hcount
      exact ⟨source, .nil source, hsource⟩
  | succ count ih =>
      rw [Nat.mul_succ] at hcount
      cases front with
      | nil =>
          rw [List.length_nil] at hcount
          omega
      | cons cell front =>
          have henough : size ≤ source.cells.length := by
            rw [hsource, List.length_append]
            omega
          obtain ⟨next, hturn, hnext⟩ :=
            h source cell (front ++ tail) hsource (hfront cell (List.mem_cons_self ..)) henough
          rw [hsource, List.drop_append_of_le_length (by omega)] at hnext
          obtain ⟨finish, hturns, hfinish⟩ := ih
            (fun other hother => hfront other (List.mem_of_mem_drop hother))
            (by rw [List.length_drop, hcount, Nat.add_sub_cancel]) hnext
          exact ⟨finish, .cons hturn hturns, hfinish⟩

/-- Otherwise a turn goes past the end, and whatever begins there is missed. -/
theorem not_gets_of_skips (h : Skips reader ends size skipped) (hconsumes : Consumes reader ends)
    (hsize : 0 < size) {front tail : List (Cell ρ)} (hfront : ∀ cell ∈ front, skipped cell)
    (hdvd : ¬ size ∣ front.length) (htail : size ≤ tail.length) {source : Source ρ}
    (hsource : source.cells = front ++ tail) (after : σ → Option α → Option σ) (state : σ) (a : α) :
    ¬ Gets reader ends after state source tail.length a := by
  obtain ⟨count, hcount⟩ : ∃ count, front.length < count * size :=
    ⟨front.length + 1, by
      calc front.length < (front.length + 1) * 1 := by omega
        _ ≤ (front.length + 1) * size := Nat.mul_le_mul_left _ hsize⟩
  induction count generalizing front source state with
  | zero => omega
  | succ count ih =>
      cases front with
      | nil => exact absurd (Nat.dvd_zero size) hdvd
      | cons cell front =>
          have hlength : source.cells.length = (cell :: front).length + tail.length := by
            rw [hsource, List.length_append]
          obtain ⟨next, hturn, hnext⟩ :=
            h source cell (front ++ tail) hsource (hfront cell (List.mem_cons_self ..)) (by omega)
          rw [gets_next_iff hturn (by rw [hlength, List.length_cons]; omega)]
          rintro ⟨state', -, hgets⟩
          by_cases hle : size ≤ (cell :: front).length
          · rw [hsource, List.drop_append_of_le_length hle] at hnext
            refine ih (fun other hother => hfront other (List.mem_of_mem_drop hother)) ?_ hnext
              state' ?_ hgets
            · intro hrest
              have hwhole := Nat.dvd_add hrest (Nat.dvd_refl size)
              rw [List.length_drop, Nat.sub_add_cancel hle] at hwhole
              exact hdvd hwhole
            · rw [Nat.succ_mul] at hcount
              rw [List.length_drop]
              omega
          · refine not_gets_of_past hconsumes ?_ hgets
            rw [hnext, List.length_drop]
            omega

end Vnctlsd.Library.ReadLoop
