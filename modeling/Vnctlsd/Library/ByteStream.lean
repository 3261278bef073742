import Mathlib.Data.List.Basic

/-! Reading from a byte stream whose bytes may carry attachments, where the
system below decides how much each read returns. -/
namespace Vnctlsd.Library.ByteStream

structure Cell (ρ : Type) where
  byte : UInt8
  attached : List ρ
  deriving DecidableEq

/-- The unread end of a stream.  `splits` sizes the reads to come, `ended` says
that nothing will follow, and `released` lists the attachments that the reader
has received and given back. -/
structure Source (ρ : Type) where
  cells : List (Cell ρ)
  ended : Bool
  splits : List Nat
  released : List ρ
  deriving DecidableEq

/-- A read on an empty stream that has not ended does not return. -/
inductive Outcome (ρ ε α : Type) where
  | value (a : α) (source : Source ρ)
  | raised (e : ε) (source : Source ρ)
  | blocked
  deriving DecidableEq

structure Reader (ρ ε α : Type) where
  run : Source ρ → Outcome ρ ε α

variable {ρ ε α β : Type}

namespace Reader

def bind (first : Reader ρ ε α) (second : α → Reader ρ ε β) : Reader ρ ε β where
  run source :=
    match first.run source with
    | .value a source => (second a).run source
    | .raised e source => .raised e source
    | .blocked => .blocked

instance : Monad (Reader ρ ε) where
  pure a := ⟨fun source => .value a source⟩
  bind := bind

def raise (e : ε) : Reader ρ ε α := ⟨fun source => .raised e source⟩

def release (items : List ρ) : Reader ρ ε Unit where
  run source := .value () { source with released := source.released ++ items }

/-- What has been read is looked at without the stream. -/
def ofExcept : Except ε α → Reader ρ ε α
  | .ok a => pure a
  | .error e => raise e

@[simp] theorem run_pure (a : α) (source : Source ρ) :
    (pure a : Reader ρ ε α).run source = .value a source := rfl

@[simp] theorem run_raise (e : ε) (source : Source ρ) :
    (raise e : Reader ρ ε α).run source = .raised e source := rfl

@[simp] theorem run_release (items : List ρ) (source : Source ρ) :
    (release items : Reader ρ ε Unit).run source =
      .value () { source with released := source.released ++ items } := rfl

theorem run_bind_value {first : Reader ρ ε α} {source next : Source ρ} {a : α}
    (h : first.run source = .value a next) (second : α → Reader ρ ε β) :
    (first >>= second).run source = (second a).run next := by
  show (bind first second).run source = _
  simp only [bind, h]

theorem run_bind_raised {first : Reader ρ ε α} {source next : Source ρ} {e : ε}
    (h : first.run source = .raised e next) (second : α → Reader ρ ε β) :
    (first >>= second).run source = .raised e next := by
  show (bind first second).run source = _
  simp only [bind, h]

theorem run_bind_blocked {first : Reader ρ ε α} {source : Source ρ}
    (h : first.run source = .blocked) (second : α → Reader ρ ε β) :
    (first >>= second).run source = .blocked := by
  show (bind first second).run source = _
  simp only [bind, h]

end Reader

/-- One read of at most `n` bytes; it returns at least one, unless the stream has
ended. -/
def recv (n : Nat) : Reader ρ ε (List (Cell ρ)) where
  run source :=
    if source.cells = [] then if source.ended then .value [] source else .blocked
    else
      let size := 1 + source.splits.headD 0 % min n source.cells.length
      .value (source.cells.take size)
        { source with cells := source.cells.drop size, splits := source.splits.tail }

theorem recv_nil (n : Nat) {source : Source ρ} (h : source.cells = []) :
    (recv n : Reader ρ ε _).run source = if source.ended then .value [] source else .blocked := by
  simp only [recv, if_pos h]

theorem recv_spec {n : Nat} (hn : 0 < n) {source : Source ρ} (hcells : source.cells ≠ []) :
    ∃ size splits, 0 < size ∧ size ≤ n ∧ size ≤ source.cells.length ∧
      (recv n : Reader ρ ε _).run source = .value (source.cells.take size)
        { source with cells := source.cells.drop size, splits := splits } := by
  have hlength : 0 < source.cells.length := List.length_pos_iff.mpr hcells
  have hlt := Nat.mod_lt (source.splits.headD 0)
    (show 0 < min n source.cells.length from Nat.lt_min.mpr ⟨hn, hlength⟩)
  refine ⟨1 + source.splits.headD 0 % min n source.cells.length, source.splits.tail, by omega,
    by omega, by omega, ?_⟩
  simp only [recv, if_neg hcells]

/-- What a `recv` that got something has got. -/
theorem take_chunk {cells : List (Cell ρ)} {size : Nat} (hpos : 0 < size)
    (hsize : size ≤ cells.length) :
    (cells.take size).length = size ∧ (cells.take size).isEmpty = false := by
  have hlength : (cells.take size).length = size := by
    rw [List.length_take, Nat.min_eq_left hsize]
  refine ⟨hlength, ?_⟩
  rw [List.isEmpty_eq_false_iff]
  apply List.ne_nil_of_length_pos
  rw [hlength]
  exact hpos

theorem recv_append {front rest : List (Cell ρ)} (hfront : front ≠ []) {source : Source ρ}
    (h : source.cells = front ++ rest) :
    ∃ size splits, 0 < size ∧ size ≤ front.length ∧
      (recv front.length : Reader ρ ε _).run source = .value (front.take size)
        { source with cells := front.drop size ++ rest, splits := splits } := by
  have hne : source.cells ≠ [] := by simp [h, hfront]
  obtain ⟨size, splits, hpos, hle, -, hrecv⟩ :=
    @recv_spec ρ ε _ (List.length_pos_iff.mpr hfront) source hne
  refine ⟨size, splits, hpos, hle, ?_⟩
  rw [hrecv, h, List.take_append_of_le_length hle, List.drop_append_of_le_length hle]

/-- Read until `n` bytes are there.  Every turn gets at least one, so the fuel
is `n`; attachments of the bytes are dropped. -/
def readExactly (ended : ε) : Nat → Nat → Reader ρ ε (List UInt8)
  | _, 0 => pure []
  | 0, _ + 1 => ⟨fun _ => .blocked⟩
  | fuel + 1, n + 1 => do
      let chunk ← recv (n + 1)
      if chunk.isEmpty then Reader.raise ended
      else do
        let others ← readExactly ended fuel (n + 1 - chunk.length)
        pure (chunk.map Cell.byte ++ others)

theorem readExactly_append (ended : ε) {front rest : List (Cell ρ)} {fuel : Nat}
    (hfuel : front.length ≤ fuel) {source : Source ρ} (h : source.cells = front ++ rest) :
    ∃ splits, (readExactly ended fuel front.length).run source = .value (front.map Cell.byte)
      { source with cells := rest, splits := splits } := by
  induction fuel generalizing front source with
  | zero =>
      obtain rfl := List.length_eq_zero_iff.mp (Nat.le_zero.mp hfuel)
      refine ⟨source.splits, ?_⟩
      rw [List.nil_append] at h
      simp [readExactly, ← h]
  | succ fuel ih =>
      cases front with
      | nil =>
          refine ⟨source.splits, ?_⟩
          rw [List.nil_append] at h
          simp [readExactly, ← h]
      | cons cell front =>
          obtain ⟨size, splits, hpos, hsize, hrecv⟩ :=
            @recv_append ρ ε _ rest (List.cons_ne_nil cell front) source h
          have hlength : ((cell :: front).drop size).length =
              front.length + 1 - ((cell :: front).take size).length := by
            rw [List.length_drop, List.length_take, Nat.min_eq_left hsize, List.length_cons]
          have hless : ((cell :: front).drop size).length ≤ fuel := by
            rw [List.length_drop]
            omega
          obtain ⟨splits', hrest⟩ := @ih ((cell :: front).drop size) hless
            { source with cells := (cell :: front).drop size ++ rest, splits := splits } rfl
          refine ⟨splits', ?_⟩
          have hchunk : ((cell :: front).take size).isEmpty = false := by
            cases size with
            | zero => exact absurd hpos (Nat.lt_irrefl 0)
            | succ size => rfl
          rw [List.length_cons] at hrecv ⊢
          rw [readExactly, Reader.run_bind_value hrecv, hchunk,
            if_neg Bool.false_ne_true, ← hlength, Reader.run_bind_value hrest, Reader.run_pure,
            ← List.map_append, List.take_append_drop]

theorem readExactly_enough (ended : ε) {fuel n : Nat} (hfuel : n ≤ fuel) {source : Source ρ}
    (h : n ≤ source.cells.length) :
    ∃ splits, (readExactly ended fuel n).run source = .value ((source.cells.take n).map Cell.byte)
      { source with cells := source.cells.drop n, splits := splits } := by
  have hfront : (source.cells.take n).length = n := by rw [List.length_take, Nat.min_eq_left h]
  have hread := @readExactly_append ρ ε ended (source.cells.take n) (source.cells.drop n) fuel
    (by rwa [hfront]) source (List.take_append_drop ..).symm
  rwa [hfront] at hread

/-- On a stream that ends too early every byte is taken before the error. -/
theorem readExactly_short (ended : ε) {fuel n : Nat} (hfuel : n ≤ fuel) {source : Source ρ}
    (h : source.cells.length < n) :
    ∃ splits, (readExactly ended fuel n).run source =
      if source.ended then .raised ended { source with cells := [], splits := splits }
      else .blocked := by
  induction fuel generalizing n source with
  | zero => omega
  | succ fuel ih =>
      obtain ⟨n, rfl⟩ : ∃ m, n = m + 1 := ⟨n - 1, by omega⟩
      rw [readExactly]
      by_cases hcells : source.cells = []
      · refine ⟨source.splits, ?_⟩
        have hrecv := @recv_nil ρ ε (n + 1) source hcells
        cases hended : source.ended with
        | false =>
            rw [hended, if_neg Bool.false_ne_true] at hrecv
            rw [Reader.run_bind_blocked hrecv, if_neg Bool.false_ne_true]
        | true =>
            rw [hended, if_pos rfl] at hrecv
            rw [Reader.run_bind_value hrecv, List.isEmpty_nil, if_pos rfl, if_pos rfl,
              Reader.run_raise]
            simp only [← hcells, ← hended]
      · obtain ⟨size, splits, hpos, -, hsize, hrecv⟩ :=
          @recv_spec ρ ε _ (Nat.succ_pos n) source hcells
        obtain ⟨hlength, hchunk⟩ := take_chunk hpos hsize
        have hless : (source.cells.drop size).length < n + 1 - size := by
          rw [List.length_drop]
          omega
        obtain ⟨splits', hrest⟩ := @ih (n + 1 - size) (by omega)
          { source with cells := source.cells.drop size, splits := splits } hless
        refine ⟨splits', ?_⟩
        rw [Reader.run_bind_value hrecv, hchunk, if_neg Bool.false_ne_true, hlength]
        cases hended : source.ended with
        | false =>
            simp only [hended, Bool.false_eq_true, if_false] at hrest ⊢
            rw [Reader.run_bind_blocked hrest]
        | true =>
            simp only [hended, if_true] at hrest ⊢
            rw [Reader.run_bind_raised hrest]

end Vnctlsd.Library.ByteStream
