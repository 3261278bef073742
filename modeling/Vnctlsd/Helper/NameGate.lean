import Mathlib.Data.List.Basic
import Vnctlsd.Helper.Accounts

/-! `valid_username` over memory: a pointer that moves through the argument, and every
address that it is dereferenced at. -/
namespace Vnctlsd.Helper
open Vnctlsd.Python.Text

/-- The bytes by address; plain `char` is signed or not, as the compiler has it. -/
structure Memory where
  signed : Bool
  byte : Nat → UInt8

/-- A computation that keeps the addresses it has read; `none` is undefined
behaviour, or a loop that is out of fuel. -/
abbrev Gate := StateT (List Nat) Option

/-- The value of a plain `char` in an expression. -/
def promote (signed : Bool) (byte : UInt8) : Int :=
  if signed then byte.toInt8.toInt else byte.toNat

/-- `*s`. -/
def Memory.load (mem : Memory) (s : Nat) : Gate Int :=
  fun reads => some (promote mem.signed (mem.byte s), reads ++ [s])

/-- `(unsigned char)value`. -/
def unsignedChar (value : Int) : Int := value % 256

/-- `isalnum(value)` in the C locale, undefined unless `value` is an `unsigned char`
or `EOF`. -/
def isalnum (value : Int) : Option Bool :=
  if -1 ≤ value ∧ value ≤ 255 then
    some ((0x30 ≤ value && value ≤ 0x39) || (0x41 ≤ value && value ≤ 0x5a) ||
      (0x61 ≤ value && value ≤ 0x7a))
  else none

/-- The second condition in the body of the loop. -/
def forbidden (mem : Memory) (s : Nat) : Gate Bool := do
  if ← isalnum (unsignedChar (← mem.load s)) then return false
  if (← mem.load s) = 0x2e then return false
  if (← mem.load s) = 0x5f then return false
  return (← mem.load s) ≠ 0x2d

def validUsernameLoop (mem : Memory) : (fuel s n : Nat) → Gate Bool
  | 0, _, _ => fun _ => none
  | fuel + 1, s, n => do
      if (← mem.load s) = 0 then return true
      if maxUsername ≤ n then return false
      if ← forbidden mem s then return false
      validUsernameLoop mem fuel (s + 1) (n + 1)

/-- `valid_username(s)`; `none` is the null pointer. -/
def validUsernameAt (mem : Memory) (fuel : Nat) : Option Nat → Gate Bool
  | none => return false
  | some s => do
      if (← mem.load s) = 0 then return false
      validUsernameLoop mem fuel s 0

/-- The bytes from `s` on are the text and its terminator. -/
structure Memory.Holds (mem : Memory) (s : Nat) (text : CStr) : Prop where
  byte : ∀ i (h : i < text.length), mem.byte (s + i) = text[i]
  nonzero : 0 ∉ text
  terminator : mem.byte (s + text.length) = 0

/-- A C string: where it lies, and its bytes there. -/
structure StoredString where
  mem : Memory
  start : Nat
  text : CStr
  holds : mem.Holds start text

/-- An ASCII letter or digit, `.`, `_` or `-`. -/
def NameByte (c : UInt8) : Prop :=
  (Char.ofNat c.toNat).isAlphanum = true ∨ Char.ofNat c.toNat ∈ ['.', '_', '-']

instance (c : UInt8) : Decidable (NameByte c) := inferInstanceAs (Decidable (_ ∨ _))

def isNameByte (c : UInt8) : Bool := isAlnum c || c == 0x2e || c == 0x5f || c == 0x2d

theorem isNameByte_iff : ∀ c : UInt8, isNameByte c = true ↔ NameByte c :=
  forall_byte (by decide +kernel)

theorem refused_eq (c : UInt8) :
    (!isAlnum c && c != 0x2e && c != 0x5f && c != 0x2d) = !isNameByte c := by
  rw [isNameByte]
  simp only [Bool.not_or, bne]

theorem validFrom_eq (n : Nat) (text : CStr) :
    validFrom n text =
      ((text.isEmpty || decide (n + text.length ≤ maxUsername)) && text.all isNameByte) := by
  induction text generalizing n with
  | nil => rfl
  | cons c rest ih =>
      rw [validFrom, refused_eq, List.isEmpty_cons, Bool.false_or, List.all_cons,
        List.length_cons]
      by_cases hfull : maxUsername ≤ n
      · rw [if_pos hfull, decide_eq_false (by omega), Bool.false_and]
      · rw [if_neg hfull, ih]
        cases hname : isNameByte c with
        | false => simp only [Bool.not_false, if_true, Bool.false_and, Bool.and_false]
        | true =>
            have hbound : (rest.isEmpty || decide (n + 1 + rest.length ≤ maxUsername)) =
                decide (n + (rest.length + 1) ≤ maxUsername) := by
              cases rest with
              | nil =>
                  rw [List.isEmpty_nil, Bool.true_or, eq_comm, decide_eq_true_iff,
                    List.length_nil]
                  omega
              | cons next rest =>
                  rw [List.isEmpty_cons, Bool.false_or]
                  congr 1
                  rw [eq_iff_iff]
                  omega
            rw [hbound, Bool.true_and]
            simp only [Bool.not_true, Bool.false_eq_true, if_false]

theorem validUsername_iff (text : CStr) :
    validUsername text = true ↔
      (1 ≤ text.length ∧ text.length ≤ maxUsername) ∧ ∀ c ∈ text, NameByte c := by
  rw [validUsername, validFrom_eq]
  cases text with
  | nil => simp
  | cons c rest =>
      simp only [List.isEmpty_cons, Bool.not_false, Bool.true_and, Bool.false_or, Nat.zero_add,
        Bool.and_eq_true, decide_eq_true_iff, List.all_eq_true, isNameByte_iff]
      exact and_congr_left fun _ => ⟨fun h => ⟨Nat.le_add_left 1 _, h⟩, And.right⟩

/-- Whatever was read before, the computation gives `value` and adds only addresses
with the property. -/
def Yields (m : Gate α) (within : Nat → Prop) (value : α) : Prop :=
  ∀ reads, ∃ more, m.run reads = some (value, reads ++ more) ∧ ∀ address ∈ more, within address

variable {α β : Type} {mem : Memory} {s n fuel : Nat} {text : CStr} {within : Nat → Prop}

/-- The cast undoes the sign extension. -/
theorem unsignedChar_promote (signed : Bool) (c : UInt8) :
    unsignedChar (promote signed c) = c.toNat := by
  revert signed
  revert c
  exact forall_byte (by decide +kernel)

theorem promote_eq_iff (signed : Bool) (c d : UInt8) :
    promote signed c = promote signed d ↔ c = d := by
  constructor
  · intro h
    have hcast := congrArg unsignedChar h
    rw [unsignedChar_promote, unsignedChar_promote, Int.ofNat_inj] at hcast
    exact UInt8.toNat_inj.mp hcast
  · rintro rfl
    rfl

theorem promote_eq_ascii (signed : Bool) (c d : UInt8) (h : d.toNat < 128) :
    promote signed c = d.toNat ↔ c = d := by
  have hd : promote signed d = d.toNat := by
    revert signed
    revert h
    revert d
    exact forall_byte (by decide +kernel)
  rw [← hd, promote_eq_iff]

theorem isalnum_byte : ∀ c : UInt8, isalnum (c.toNat : Int) = some (isAlnum c) :=
  forall_byte (by decide +kernel)

theorem Yields.pure (value : α) : Yields (pure value) within value := fun reads =>
  ⟨[], congrArg (fun more => some (value, more)) (List.append_nil reads).symm,
    fun _ h => absurd h List.not_mem_nil⟩

theorem Yields.lift (value : α) : Yields (liftM (some value)) within value :=
  Yields.pure value

theorem Yields.load (h : within s) : Yields (mem.load s) within (promote mem.signed (mem.byte s)) :=
  fun _ => ⟨[s], rfl, fun _ haddress => List.mem_singleton.mp haddress ▸ h⟩

theorem Yields.bind {m : Gate α} {f : α → Gate β} {a : α} {b : β} (hm : Yields m within a)
    (hf : Yields (f a) within b) : Yields (m >>= f) within b := by
  intro reads
  obtain ⟨first, hfirst, hat⟩ := hm reads
  obtain ⟨second, hsecond, hwithin⟩ := hf (reads ++ first)
  refine ⟨first ++ second, ?_, fun address haddress => ?_⟩
  · rw [StateT.run_bind, hfirst, ← List.append_assoc]
    exact hsecond
  · exact (List.mem_append.mp haddress).elim (hat address) (hwithin address)

/-- `if c then return value; rest`. -/
theorem Yields.guard {c : Prop} [Decidable c] {value b : α} {rest : Gate α}
    (hvalue : c → value = b) (hrest : ¬ c → Yields rest within b) :
    Yields (if c then Pure.pure value else rest) within b := by
  split
  case isTrue hc =>
    rw [← hvalue hc]
    exact Yields.pure value
  case isFalse hc => exact hrest hc

theorem forbidden_yields (h : within s) :
    Yields (forbidden mem s) within (!isNameByte (mem.byte s)) := by
  have hascii (d : UInt8) (hd : d.toNat < 128) := promote_eq_ascii mem.signed (mem.byte s) d hd
  have hdot : promote mem.signed (mem.byte s) = 0x2e ↔ _ := hascii 0x2e (by decide)
  have hscore : promote mem.signed (mem.byte s) = 0x5f ↔ _ := hascii 0x5f (by decide)
  have hdash : promote mem.signed (mem.byte s) = 0x2d ↔ _ := hascii 0x2d (by decide)
  have halnum : Yields (isalnum (unsignedChar (promote mem.signed (mem.byte s))))
      within (isAlnum (mem.byte s)) := by
    rw [unsignedChar_promote, isalnum_byte]
    exact Yields.lift _
  rw [isNameByte]
  refine .bind (.load h) (.bind halnum (.guard (fun hletter => ?_) fun hletter => ?_))
  · rw [hletter]
    rfl
  rw [Bool.of_not_eq_true hletter]
  refine .bind (.load h) (.guard (fun his => ?_) fun hisnt => ?_)
  · rw [hdot.mp his]
    rfl
  rw [beq_false_of_ne (mt hdot.mpr hisnt)]
  refine .bind (.load h) (.guard (fun his => ?_) fun hisnt => ?_)
  · rw [hscore.mp his]
    rfl
  rw [beq_false_of_ne (mt hscore.mpr hisnt)]
  refine .bind (.load h) ?_
  rw [decide_eq_decide.mpr (not_congr hdash)]
  cases hequal : mem.byte s == 0x2d with
  | true => rw [decide_eq_false (not_not_intro (eq_of_beq hequal))]; exact .pure _
  | false => rw [decide_eq_true (ne_of_beq_false hequal)]; exact .pure _

theorem Memory.Holds.tail {c : UInt8} (h : mem.Holds s (c :: text)) : mem.Holds (s + 1) text where
  byte i hi := by
    rw [Nat.add_right_comm, Nat.add_assoc]
    exact h.byte (i + 1) (Nat.succ_lt_succ hi)
  nonzero hzero := h.nonzero (List.mem_cons_of_mem c hzero)
  terminator := by
    rw [Nat.add_right_comm, Nat.add_assoc]
    exact h.terminator

theorem Memory.Holds.end_iff (h : mem.Holds s text) :
    promote mem.signed (mem.byte s) = 0 ↔ text = [] := by
  have hzero : promote mem.signed (mem.byte s) = 0 ↔ mem.byte s = 0 :=
    promote_eq_ascii mem.signed (mem.byte s) 0 (by decide)
  rw [hzero]
  cases text with
  | nil => exact iff_of_true h.terminator rfl
  | cons c rest =>
      have hbyte : mem.byte s = c := h.byte 0 (Nat.succ_pos _)
      rw [hbyte]
      refine iff_of_false ?_ (List.cons_ne_nil c rest)
      rintro rfl
      exact h.nonzero List.mem_cons_self

/-- With `n` bytes behind it the loop reads on from `s` to the terminator, and no further
than index `maxUsername`. -/
theorem validUsernameLoop_yields (hholds : mem.Holds s text) (hn : n ≤ maxUsername)
    (hfuel : maxUsername < n + fuel)
    (hwithin : ∀ i ≤ text.length, n + i ≤ maxUsername → within (s + i)) :
    Yields (validUsernameLoop mem fuel s n) within (validFrom n text) := by
  induction text generalizing s n fuel with
  | nil =>
      obtain ⟨fuel, rfl⟩ := Nat.exists_eq_add_one_of_ne_zero (n := fuel) (by omega)
      exact .bind (.load (hwithin 0 (Nat.le_refl 0) hn))
        (.guard (fun _ => rfl) fun h => absurd (hholds.end_iff.mpr rfl) h)
  | cons c rest ih =>
      obtain ⟨fuel, rfl⟩ := Nat.exists_eq_add_one_of_ne_zero (n := fuel) (by omega)
      have hs : within s := hwithin 0 (Nat.zero_le _) hn
      have hbyte : mem.byte s = c := hholds.byte 0 (Nat.succ_pos _)
      rw [validFrom, refused_eq]
      refine .bind (.load hs) (.guard (fun h => ?_) fun _ =>
        .guard (fun hfull => ?_) fun hroom => ?_)
      · cases hholds.end_iff.mp h
      · rw [if_pos hfull]
      · rw [if_neg hroom]
        refine .bind (forbidden_yields hs) (.guard (fun hbad => ?_) fun hgood => ?_)
        · rw [hbyte] at hbad
          rw [if_pos hbad]
        · rw [hbyte] at hgood
          rw [if_neg hgood]
          refine ih hholds.tail (by omega) (by omega) fun i hi hni => ?_
          rw [Nat.add_right_comm, Nat.add_assoc]
          exact hwithin (i + 1) (Nat.succ_le_succ hi) (by omega)

/-- `validUsername` is what the C function computes on a string in memory. -/
theorem validUsernameAt_yields (hholds : mem.Holds s text) (hfuel : maxUsername < fuel)
    (hwithin : ∀ i ≤ text.length, i ≤ maxUsername → within (s + i)) :
    Yields (validUsernameAt mem fuel (some s)) within (validUsername text) := by
  rw [validUsername]
  refine .bind (.load (hwithin 0 (Nat.zero_le _) (Nat.zero_le _)))
    (.guard (fun h => ?_) fun h => ?_)
  · rw [hholds.end_iff.mp h]
    rfl
  · rw [List.isEmpty_eq_false_iff.mpr (mt hholds.end_iff.mpr h), Bool.not_false, Bool.true_and]
    refine validUsernameLoop_yields hholds (Nat.zero_le _) (by omega) fun i hi hni => ?_
    exact hwithin i hi (by omega)

/-- The gate of `main`: exactly the names of the allowed bytes pass, and no address
after the terminator or after index `maxUsername` is read. -/
theorem validUsername_gate (string : StoredString) (fuel : Nat) (hfuel : maxUsername < fuel) :
    ∃ reads,
      (validUsernameAt string.mem fuel (some string.start)).run [] =
        some (validUsername string.text, reads) ∧
      (validUsername string.text = true ↔
        (1 ≤ string.text.length ∧ string.text.length ≤ maxUsername) ∧
          ∀ c ∈ string.text, NameByte c) ∧
      ∀ address ∈ reads, ∃ i ≤ string.text.length, i ≤ maxUsername ∧
        address = string.start + i := by
  have hyields : Yields (validUsernameAt string.mem fuel (some string.start))
      (fun address => ∃ i ≤ string.text.length, i ≤ maxUsername ∧ address = string.start + i)
      (validUsername string.text) :=
    validUsernameAt_yields string.holds hfuel fun i hi hmax => ⟨i, hi, hmax, rfl⟩
  obtain ⟨reads, hrun, hreads⟩ := hyields []
  exact ⟨reads, hrun, validUsername_iff string.text, hreads⟩

/-- `ab-` and a byte that is negative as a signed `char`. -/
def accented : CStr := [0x61, 0x62, 0x2d, 0xe9]

def accentedAt : StoredString where
  mem := ⟨true, fun address => accented.getD (address - 16) 0⟩
  start := 16
  text := accented
  holds := ⟨by decide, by decide, by decide⟩

theorem validUsername_gate_accented :
    maxUsername < 65 ∧ ∃ reads,
      (validUsernameAt accentedAt.mem 65 (some accentedAt.start)).run [] =
        some (validUsername accentedAt.text, reads) ∧
      (validUsername accentedAt.text = true ↔
        (1 ≤ accentedAt.text.length ∧ accentedAt.text.length ≤ maxUsername) ∧
          ∀ c ∈ accentedAt.text, NameByte c) ∧
      ∀ address ∈ reads, ∃ i ≤ accentedAt.text.length, i ≤ maxUsername ∧
        address = accentedAt.start + i :=
  ⟨by decide, validUsername_gate accentedAt 65 (by decide)⟩

end Vnctlsd.Helper
