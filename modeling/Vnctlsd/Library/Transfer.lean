import Mathlib.Data.List.TakeDrop
import Vnctlsd.Library.Transition

/-! Programs that move bytes from one descriptor to another.  A run is the list of
its system calls with their results, so that what was read, what was offered and what
was written are functions of it. -/
namespace Vnctlsd.Library.Transfer
open Transition

/-- The descriptors of a program between its standard streams and a socket. -/
inductive End where
  | stdin
  | stdout
  | sock
  deriving DecidableEq

/-- `interrupted` is the error `EINTR`, `failed` any other. -/
inductive Result (α : Type) where
  | returned (value : α)
  | interrupted
  | failed
  deriving DecidableEq

inductive Call (Fd Other : Type) where
  | read (fd : Fd) (size : Nat) (result : Result (List UInt8))
  | write (fd : Fd) (data : List UInt8) (result : Result Nat)
  | other (call : Other)
  deriving DecidableEq

variable {Fd Other State : Type} [DecidableEq Fd]

namespace Call

def taken (fd : Fd) : Call Fd Other → List UInt8
  | .read source _ (.returned data) => if source = fd then data else []
  | _ => []

def offered (fd : Fd) : Call Fd Other → List UInt8
  | .write sink data _ => if sink = fd then data else []
  | _ => []

def given (fd : Fd) : Call Fd Other → List UInt8
  | .write sink data (.returned count) => if sink = fd then data.take count else []
  | _ => []

/-- A write takes at least one byte, if it is offered any, and no more than it is
offered. -/
def Legal : Call Fd Other → Prop
  | .write _ data (.returned count) => count ≤ data.length ∧ (data ≠ [] → 0 < count)
  | .write _ _ _ => False
  | _ => True

/-- A write that takes all it is offered. -/
def Whole (fd : Fd) : Call Fd Other → Prop
  | .write sink data (.returned count) => sink = fd → count = data.length
  | .write sink _ _ => sink ≠ fd
  | _ => True

instance : DecidablePred (Legal : Call Fd Other → Prop)
  | .write _ data (.returned count) =>
      inferInstanceAs (Decidable (count ≤ data.length ∧ (data ≠ [] → 0 < count)))
  | .write _ _ .interrupted | .write _ _ .failed => inferInstanceAs (Decidable False)
  | .read _ _ _ | .other _ => inferInstanceAs (Decidable True)

theorem length_given_le (fd : Fd) (call : Call Fd Other) :
    (call.given fd).length ≤ (call.offered fd).length := by
  cases call with
  | read | other => exact Nat.zero_le _
  | write sink data result =>
      cases result with
      | interrupted | failed => exact Nat.zero_le _
      | returned count =>
          simp only [given, offered]
          split
          · exact List.length_take_le' count data
          · exact Nat.zero_le _

/-- A legal write falls short of its offer exactly where its count does. -/
theorem given_eq_offered_iff {fd : Fd} {call : Call Fd Other} (hlegal : call.Legal) :
    call.given fd = call.offered fd ↔ call.Whole fd := by
  cases call with
  | read | other => exact iff_of_true rfl trivial
  | write sink data result =>
      cases result with
      | interrupted | failed => exact hlegal.elim
      | returned count =>
          obtain ⟨hcount, -⟩ := hlegal
          simp only [given, offered, Whole]
          split
          case isFalse hsink => exact iff_of_true rfl fun h => absurd h hsink
          case isTrue hsink =>
              rw [List.take_eq_self_iff]
              exact ⟨fun hle _ => Nat.le_antisymm hcount hle, fun h => Nat.le_of_eq (h hsink).symm⟩

end Call

def received (fd : Fd) (calls : List (Call Fd Other)) : List UInt8 := calls.flatMap (Call.taken fd)
def offered (fd : Fd) (calls : List (Call Fd Other)) : List UInt8 := calls.flatMap (Call.offered fd)
def delivered (fd : Fd) (calls : List (Call Fd Other)) : List UInt8 := calls.flatMap (Call.given fd)

theorem length_flatMap_le {α β : Type} {f g : α → List β} {items : List α}
    (hle : ∀ item ∈ items, (f item).length ≤ (g item).length) :
    (items.flatMap f).length ≤ (items.flatMap g).length := by
  induction items with
  | nil => exact Nat.le_refl 0
  | cons item items ih =>
      obtain ⟨hhead, htail⟩ := List.forall_mem_cons.mp hle
      rw [List.flatMap_cons, List.flatMap_cons, List.length_append, List.length_append]
      exact Nat.add_le_add hhead (ih htail)

/-- Pieces that are no longer than their counterparts make the same whole only piece
by piece. -/
theorem flatMap_eq_flatMap_iff {α β : Type} {f g : α → List β} {items : List α}
    (hle : ∀ item ∈ items, (f item).length ≤ (g item).length) :
    items.flatMap f = items.flatMap g ↔ ∀ item ∈ items, f item = g item := by
  induction items with
  | nil => exact iff_of_true rfl fun _ hitem => absurd hitem List.not_mem_nil
  | cons item items ih =>
      obtain ⟨hhead, htail⟩ := List.forall_mem_cons.mp hle
      rw [List.flatMap_cons, List.flatMap_cons, List.forall_mem_cons, ← ih htail]
      constructor
      · intro h
        have hlength := congrArg List.length h
        have hrest := length_flatMap_le htail
        rw [List.length_append, List.length_append] at hlength
        exact List.append_inj h (by omega)
      · rintro ⟨hitem, hitems⟩
        rw [hitem, hitems]

/-- Of what was offered everything arrives if and only if no write falls short. -/
theorem delivered_eq_offered_iff {fd : Fd} {calls : List (Call Fd Other)}
    (hlegal : ∀ call ∈ calls, call.Legal) :
    delivered fd calls = offered fd calls ↔ ∀ call ∈ calls, call.Whole fd := by
  unfold delivered offered
  rw [flatMap_eq_flatMap_iff fun call _ => call.length_given_le fd]
  exact forall₂_congr fun call hcall => Call.given_eq_offered_iff (hlegal call hcall)

/-- Everything from `source` goes to `sink`, and `pending` has still to be written. -/
def Owed (source sink : Fd) (calls : List (Call Fd Other)) (pending : List UInt8) : Prop :=
  received source calls = delivered sink calls ++ pending

namespace Owed

variable {source sink : Fd} {calls : List (Call Fd Other)} {pending : List UInt8}

theorem isPrefix (h : Owed source sink calls pending) :
    delivered sink calls <+: received source calls := ⟨pending, h.symm⟩

theorem complete (h : Owed source sink calls []) : delivered sink calls = received source calls :=
  (h.trans (List.append_nil _)).symm

end Owed

/-- If each step balances what it takes in and what it gives out against what is
pending, so does every run. -/
theorem balance_of_run {Label β : Type} {step : State → Label → Option State}
    {taken given : Label → List β} {pending : State → List β}
    (balanced : ∀ state label next, step state label = some next →
      pending state ++ taken label = given label ++ pending next)
    {start finish : State} {labels : List Label} (hrun : Run step start labels finish)
    (hstart : pending start = []) :
    labels.flatMap taken = labels.flatMap given ++ pending finish := by
  suffices h : pending start ++ labels.flatMap taken =
      labels.flatMap given ++ pending finish by
    rwa [hstart, List.nil_append] at h
  clear hstart
  induction hrun with
  | nil _ => exact List.append_nil _
  | cons hstep _ ih =>
      rw [List.flatMap_cons, List.flatMap_cons, ← List.append_assoc, balanced _ _ _ hstep,
        List.append_assoc, ih, List.append_assoc]

end Vnctlsd.Library.Transfer
