import Mathlib.Data.List.Basic

/-! A cursor that walks over a buffer in steps: when the walk ends, and what it reads
where the buffer is a list of encoded records. -/
namespace Vnctlsd.Library.Records

variable {α β ρ ω ε : Type}

/-- What a walk has put out, and how it ended. -/
structure Walked (ω ε : Type) where
  outs : List ω
  ending : Except ε Unit

/-- A step moves the cursor and puts something out, or stops the walk, or fails. -/
abbrev Step (ω ε : Type) := Nat → Except ε (Option (Nat × ω))

/-- The walk goes on while the cursor is below the limit; `none` is out of fuel. -/
def walk (limit : Nat) (step : Step ω ε) : (fuel offset : Nat) → Option (Walked ω ε)
  | 0, _ => none
  | fuel + 1, offset =>
      if offset < limit then
        match step offset with
        | .error e => some ⟨[], .error e⟩
        | .ok none => some ⟨[], .ok ()⟩
        | .ok (some (next, out)) =>
            (walk limit step fuel next).map fun walked => { walked with outs := out :: walked.outs }
      else some ⟨[], .ok ()⟩

section

variable {limit width fuel offset : Nat} {step : Step ω ε} {good : ω → Prop}

/-- Below the limit every step succeeds, moves the cursor by at least `width`, and puts
out something good. -/
structure Advances (limit width : Nat) (step : Step ω ε) (good : ω → Prop) : Prop where
  safe : ∀ offset < limit, ∃ moved, step offset = .ok moved
  forward : ∀ offset < limit, ∀ next out, step offset = .ok (some (next, out)) →
    offset + width ≤ next ∧ good out

theorem walk_moved {next : Nat} {out : ω} (hbelow : offset < limit)
    (hstep : step offset = .ok (some (next, out))) :
    walk limit step (fuel + 1) offset = (walk limit step fuel next).map
      fun walked => { walked with outs := out :: walked.outs } := by
  rw [walk, if_pos hbelow, hstep]

/-- A walk whose steps advance ends within as many steps as the width fits. -/
theorem walk_ends (h : Advances limit width step good) (hfuel : limit ≤ offset + fuel * width) :
    ∃ outs, walk limit step (fuel + 1) offset = some ⟨outs, .ok ()⟩ ∧
      ∀ out ∈ outs, good out := by
  induction fuel generalizing offset with
  | zero =>
      rw [Nat.zero_mul, Nat.add_zero] at hfuel
      exact ⟨[], by rw [walk, if_neg (Nat.not_lt.mpr hfuel)],
        fun _ hmem => absurd hmem List.not_mem_nil⟩
  | succ fuel ih =>
      by_cases hbelow : offset < limit
      · obtain ⟨moved, hmoved⟩ := h.safe offset hbelow
        match moved with
        | none =>
            exact ⟨[], by rw [walk, if_pos hbelow, hmoved],
              fun _ hmem => absurd hmem List.not_mem_nil⟩
        | some (next, out) =>
            obtain ⟨hnext, hgood⟩ := h.forward offset hbelow next out hmoved
            have hrest : limit ≤ next + fuel * width := by
              rw [Nat.succ_mul] at hfuel
              omega
            obtain ⟨outs, hwalk, houts⟩ := ih hrest
            refine ⟨out :: outs, ?_, List.forall_mem_cons.mpr ⟨hgood, houts⟩⟩
            rw [walk_moved hbelow hmoved, hwalk]
            rfl
      · exact ⟨[], by rw [walk, if_neg hbelow], fun _ hmem => absurd hmem List.not_mem_nil⟩

end

section

variable {encode : ρ → List α} {view : ω → β} {value : ρ → β} {step : List α → Step ω ε}
  {fuel : Nat}

/-- At the start of a record the step reads its value, whatever lies around it, and moves
behind it. -/
structure Reads (encode : ρ → List α) (view : ω → β) (value : ρ → β)
    (step : List α → Step ω ε) : Prop where
  nonempty : ∀ record, encode record ≠ []
  step : ∀ front record back, ∃ out,
    step (front ++ encode record ++ back) front.length =
      .ok (some ((front ++ encode record).length, out)) ∧ view out = value record

/-- Records laid end to end are read one after another. -/
theorem Reads.walk_layout (h : Reads encode view value step) (records : List ρ) (front : List α)
    (hfuel : records.length < fuel) :
    ∃ outs, walk (front ++ records.flatMap encode).length (step (front ++ records.flatMap encode))
        fuel front.length = some ⟨outs, .ok ()⟩ ∧ outs.map view = records.map value := by
  induction records generalizing front fuel with
  | nil =>
      obtain ⟨fuel, rfl⟩ := Nat.exists_eq_add_one_of_ne_zero (Nat.ne_of_gt hfuel)
      refine ⟨[], ?_, rfl⟩
      rw [List.flatMap_nil, List.append_nil, walk, if_neg (Nat.lt_irrefl _)]
  | cons record records ih =>
      obtain ⟨fuel, rfl⟩ :=
        Nat.exists_eq_add_one_of_ne_zero (Nat.ne_of_gt (Nat.zero_lt_of_lt hfuel))
      have hbelow : front.length <
          (front ++ encode record ++ records.flatMap encode).length := by
        have := List.length_pos_of_ne_nil (h.nonempty record)
        simp only [List.length_append]
        omega
      obtain ⟨out, hstep, hview⟩ := h.step front record (records.flatMap encode)
      obtain ⟨outs, hwalk, houts⟩ := ih (front ++ encode record) (Nat.lt_of_succ_lt_succ hfuel)
      refine ⟨out :: outs, ?_, ?_⟩
      · rw [List.flatMap_cons, ← List.append_assoc, walk_moved hbelow hstep, hwalk]
        rfl
      · rw [List.map_cons, List.map_cons, hview, houts]

theorem Reads.walk (h : Reads encode view value step) (records : List ρ)
    (hfuel : records.length < fuel) :
    ∃ outs, Records.walk (records.flatMap encode).length (step (records.flatMap encode)) fuel 0 =
      some ⟨outs, .ok ()⟩ ∧ outs.map view = records.map value :=
  h.walk_layout records [] hfuel

end

end Vnctlsd.Library.Records
