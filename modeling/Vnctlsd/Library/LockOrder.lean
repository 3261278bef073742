import Mathlib.Logic.Relation
import Vnctlsd.Library.Quiescence
import Vnctlsd.Library.Threads

/-! Threads that take locks in the order of a rank and wait for the world with locks
held.  A waiting thread is then kept, over a chain of holders, by something outside. -/
namespace Vnctlsd.Library.LockOrder
open Vnctlsd.Library.Transition Vnctlsd.Library.Quiescence Vnctlsd.Library.Threads

inductive Op (Lock : Type u) (Io : Type v) where
  | acquire (lock : Lock)
  | release (lock : Lock)
  | io (wait : Io)
  deriving DecidableEq

variable {Lock : Type u} {Io : Type v} {Start : Type w}

/-- `with lock:` around the body. -/
def locked (lock : Lock) (body : List (Op Lock Io)) : List (Op Lock Io) :=
  .acquire lock :: body ++ [.release lock]

/-- `keeps lock wait` where a holder of the lock may have to wait for that. -/
structure Order (Lock : Type u) (Io : Type v) where
  rank : Lock → Nat
  bound : Nat
  rank_le : ∀ lock, rank lock ≤ bound
  keeps : Lock → Io → Prop

/-- The second lock may be taken with the first one held. -/
def Order.Above (order : Order Lock Io) (outer inner : Lock) : Prop :=
  order.rank outer < order.rank inner ∧ ∀ wait, order.keeps inner wait → order.keeps outer wait

/-- What a thread that holds these locks may still have before it. -/
def Order.Fits (order : Order Lock Io) : List Lock → List (Op Lock Io) → Prop
  | held, [] => held = []
  | held, .acquire lock :: rest =>
      (∀ outer ∈ held, order.Above outer lock) ∧ order.Fits (lock :: held) rest
  | held, .release lock :: rest =>
      match held with
      | [] => False
      | last :: others => last = lock ∧ order.Fits others rest
  | held, .io wait :: rest => (∀ outer ∈ held, order.keeps outer wait) ∧ order.Fits held rest

/-- Operations that may come next, and that leave the thread with the locks it has. -/
def Order.Block (order : Order Lock Io) (held : List Lock) (ops : List (Op Lock Io)) : Prop :=
  ∀ rest, order.Fits held rest → order.Fits held (ops ++ rest)

section
variable {order : Order Lock Io} {held : List Lock} {ops others : List (Op Lock Io)}
  {lock : Lock} {wait : Io}

theorem Order.Block.nil : order.Block held [] := fun _ h => h

theorem Order.Block.append (hops : order.Block held ops) (hothers : order.Block held others) :
    order.Block held (ops ++ others) := by
  intro rest hrest
  rw [List.append_assoc]
  exact hops _ (hothers _ hrest)

theorem Order.Block.io (h : ∀ outer ∈ held, order.keeps outer wait) :
    order.Block held [.io wait] := fun _ hrest => ⟨h, hrest⟩

theorem Order.Block.locked (h : ∀ outer ∈ held, order.Above outer lock)
    (hbody : order.Block (lock :: held) ops) : order.Block held (locked lock ops) := by
  intro rest hrest
  rw [LockOrder.locked, List.cons_append, List.cons_append, List.append_assoc]
  exact ⟨h, hbody _ ⟨rfl, hrest⟩⟩

theorem Order.Block.flatMap {α : Type t} {parts : List α} {part : α → List (Op Lock Io)}
    (h : ∀ a ∈ parts, order.Block held (part a)) : order.Block held (parts.flatMap part) := by
  induction parts with
  | nil => exact .nil
  | cons a parts ih =>
      obtain ⟨hhead, htail⟩ := List.forall_mem_cons.mp h
      rw [List.flatMap_cons]
      exact hhead.append (ih htail)

theorem Order.Block.fits (h : order.Block [] ops) : order.Fits [] ops := by
  have hops := h [] rfl
  rwa [List.append_nil] at hops

/-- An exception leaves the blocks from the inside to the outside. -/
theorem Order.fits_unwind (order : Order Lock Io) (held : List Lock) :
    order.Fits held (held.map .release) := by
  induction held with
  | nil => rfl
  | cons lock held ih => exact ⟨rfl, ih⟩

end

structure Thread (Lock : Type u) (Io : Type v) where
  held : List Lock
  rest : List (Op Lock Io)
  deriving DecidableEq

/-- `pass` and `raise` are the two ways a wait for the world ends.  What a thread does
behind the handler of an exception is another program. -/
inductive Label (Start : Type w) where
  | spawn (start : Start)
  | take (i : Nat)
  | pass (i : Nat)
  | raise (i : Nat)
  deriving DecidableEq

def Thread.pass (thread : Thread Lock Io) : Option (Thread Lock Io) :=
  match thread.rest with
  | .io _ :: rest => some ⟨thread.held, rest⟩
  | _ => none

def Thread.unwind (thread : Thread Lock Io) : Option (Thread Lock Io) :=
  match thread.rest with
  | .io _ :: _ => some ⟨thread.held, thread.held.map .release⟩
  | _ => none

variable {order : Order Lock Io} {threads next : List (Thread Lock Io)}

theorem fits_pass {thread after : Thread Lock Io}
    (h : order.Fits thread.held thread.rest) (hpass : thread.pass = some after) :
    order.Fits after.held after.rest := by
  obtain ⟨held, rest⟩ := thread
  match rest with
  | .io wait :: rest =>
      cases hpass
      exact h.2
  | [] | .acquire _ :: _ | .release _ :: _ => cases hpass

theorem fits_raise {thread after : Thread Lock Io} (hraise : thread.unwind = some after) :
    order.Fits after.held after.rest := by
  obtain ⟨held, rest⟩ := thread
  match rest with
  | .io wait :: rest =>
      cases hraise
      exact order.fits_unwind held
  | [] | .acquire _ :: _ | .release _ :: _ => cases hraise

/-- Every thread keeps to the order. -/
def Ordered (order : Order Lock Io) (threads : List (Thread Lock Io)) : Prop :=
  ∀ (i : Nat) thread, threads[i]? = some thread → order.Fits thread.held thread.rest

theorem ordered_turn {i : Nat} {move : Thread Lock Io → Option (Thread Lock Io)}
    (h : Ordered order threads) (hturn : turn threads i move = some next)
    (hmove : ∀ thread after, order.Fits thread.held thread.rest → move thread = some after →
      order.Fits after.held after.rest) : Ordered order next := by
  obtain ⟨before, after, hbefore, hafter, rfl⟩ := turn_cases hturn
  exact forall_set (fun j thread _ => h j thread) (hmove before after (h i before hbefore) hafter)

variable [DecidableEq Lock] {program : Start → List (Op Lock Io)} {labels : List (Label Start)}

def free (threads : List (Thread Lock Io)) (lock : Lock) : Bool :=
  threads.all fun thread => decide (lock ∉ thread.held)

def Thread.take (free : Lock → Bool) (thread : Thread Lock Io) : Option (Thread Lock Io) :=
  match thread.rest with
  | .acquire lock :: rest => if free lock then some ⟨lock :: thread.held, rest⟩ else none
  | .release lock :: rest => some ⟨thread.held.erase lock, rest⟩
  | _ => none

def step (program : Start → List (Op Lock Io)) (threads : List (Thread Lock Io)) :
    Label Start → Option (List (Thread Lock Io))
  | .spawn start => some (threads ++ [⟨[], program start⟩])
  | .take i => turn threads i (Thread.take (free threads))
  | .pass i => turn threads i Thread.pass
  | .raise i => turn threads i Thread.unwind

/-- A thread takes and releases locks without anybody's help. -/
def Own : Label Start → Prop
  | .take _ => True
  | .spawn _ | .pass _ | .raise _ => False

theorem fits_take {thread after : Thread Lock Io} {isFree : Lock → Bool}
    (h : order.Fits thread.held thread.rest) (htake : thread.take isFree = some after) :
    order.Fits after.held after.rest := by
  obtain ⟨held, rest⟩ := thread
  match rest with
  | .acquire lock :: rest =>
      obtain ⟨-, ⟨⟩⟩ := Option.ite_none_right_eq_some.mp htake
      exact h.2
  | .release lock :: rest =>
      cases htake
      match held with
      | last :: others =>
          obtain ⟨rfl, hrest⟩ := h
          rwa [List.erase_cons_head]
  | [] | .io _ :: _ => cases htake

theorem ordered_step (hprogram : ∀ start, order.Block [] (program start)) {label : Label Start}
    (h : Ordered order threads) (hstep : step program threads label = some next) :
    Ordered order next := by
  cases label with
  | spawn start =>
      cases hstep
      intro i thread hthread
      rcases List.mem_append.mp (List.mem_of_getElem? hthread) with hmem | hmem
      · obtain ⟨j, hj⟩ := List.mem_iff_getElem?.mp hmem
        exact h j thread hj
      · cases List.mem_singleton.mp hmem
        exact (hprogram start).fits
  | take i => exact ordered_turn h hstep fun _ _ => fits_take
  | pass i => exact ordered_turn h hstep fun _ _ => fits_pass
  | raise i => exact ordered_turn h hstep fun _ _ _ => fits_raise

theorem ordered (hprogram : ∀ start, order.Block [] (program start))
    (hrun : Run (step program) [] labels threads) : Ordered order threads :=
  hrun.invariant (fun _ _ _ h hstep => ordered_step hprogram h hstep) (fun _ _ h => by cases h)

/-! Left to themselves the threads come to rest. -/

def measure (threads : List (Thread Lock Io)) : Nat :=
  (threads.map fun thread => thread.rest.length).sum

theorem length_take {thread after : Thread Lock Io} {isFree : Lock → Bool}
    (htake : thread.take isFree = some after) : after.rest.length + 1 = thread.rest.length := by
  obtain ⟨held, rest⟩ := thread
  match rest with
  | .acquire lock :: rest =>
      obtain ⟨-, ⟨⟩⟩ := Option.ite_none_right_eq_some.mp htake
      rfl
  | .release lock :: rest =>
      cases htake
      rfl
  | [] | .io _ :: _ => cases htake

theorem lowers : Lowers (step program) Own measure := by
  intro threads label next hown hstep
  cases label with
  | take i =>
      obtain ⟨before, after, hbefore, htake, rfl⟩ := turn_cases hstep
      have hsum := sum_map_set (fun thread : Thread Lock Io => thread.rest.length)
        after hbefore
      have hlength := length_take htake
      simp only [measure]
      omega
  | spawn | pass | raise => cases hown

/-- The thread at `i` wants a lock that the thread at `j` holds. -/
def Waits (threads : List (Thread Lock Io)) (i j : Nat) : Prop :=
  ∃ lock rest waiting holding, threads[i]? = some waiting ∧
    waiting.rest = .acquire lock :: rest ∧ threads[j]? = some holding ∧ lock ∈ holding.held

/-- At rest a holder of a wanted lock waits for the world, or for a lock above it. -/
theorem holder_of_quiet (hordered : Ordered order threads)
    (hquiet : Quiet (step program) Own threads) {i : Nat} {thread : Thread Lock Io} {lock : Lock}
    {rest : List (Op Lock Io)} (hthread : threads[i]? = some thread)
    (hnext : thread.rest = .acquire lock :: rest) :
    ∃ (j : Nat) (holder : Thread Lock Io), Waits threads i j ∧ threads[j]? = some holder ∧
      ((∃ wait after, holder.rest = .io wait :: after ∧ order.keeps lock wait) ∨
        ∃ inner after, holder.rest = .acquire inner :: after ∧ order.Above lock inner) := by
  have htaken : free threads lock = false := by
    have hstays := (turn_eq_none_iff hthread).mp (hquiet (.take i) trivial)
    simp only [Thread.take, hnext] at hstays
    by_contra hfree
    rw [if_pos (Bool.not_eq_false _ ▸ hfree)] at hstays
    cases hstays
  simp only [free, List.all_eq_false, decide_eq_true_eq, not_not] at htaken
  obtain ⟨holder, hmem, hheld⟩ := htaken
  obtain ⟨j, hholder⟩ := List.mem_iff_getElem?.mp hmem
  refine ⟨j, holder, ⟨lock, rest, thread, holder, hthread, hnext, hholder, hheld⟩, hholder, ?_⟩
  have hfits := hordered j holder hholder
  have hstays := (turn_eq_none_iff hholder).mp (hquiet (.take j) trivial)
  cases hrest : holder.rest with
  | nil =>
      rw [hrest] at hfits
      rw [show holder.held = [] from hfits] at hheld
      cases hheld
  | cons op after =>
      rw [hrest] at hfits
      cases op with
      | acquire inner => exact .inr ⟨inner, after, rfl, hfits.1 lock hheld⟩
      | release last =>
          simp only [Thread.take, hrest] at hstays
          cases hstays
      | io wait => exact .inl ⟨wait, after, rfl, hfits.1 lock hheld⟩

/-- No deadlock: who waits for a lock at rest is kept by a thread that waits for the
world, and for something that the holders of this lock may have to wait for. -/
theorem waits_end (hordered : Ordered order threads)
    (hquiet : Quiet (step program) Own threads) {i : Nat} {thread : Thread Lock Io} {lock : Lock}
    {rest : List (Op Lock Io)} (hthread : threads[i]? = some thread)
    (hnext : thread.rest = .acquire lock :: rest) :
    ∃ (j : Nat) (holder : Thread Lock Io) (wait : Io) (after : List (Op Lock Io)),
      Relation.TransGen (Waits threads) i j ∧ threads[j]? = some holder ∧
      holder.rest = .io wait :: after ∧ order.keeps lock wait := by
  -- the rank of the wanted lock rises along the chain
  induction hm : order.bound - order.rank lock using Nat.strongRecOn
    generalizing i thread lock rest with
  | ind room ih =>
      obtain ⟨j, holder, hwaits, hholder, ⟨wait, after, hafter, hkeeps⟩ |
        ⟨inner, after, hafter, hrank, habove⟩⟩ := holder_of_quiet hordered hquiet hthread hnext
      · exact ⟨j, holder, wait, after, .single hwaits, hholder, hafter, hkeeps⟩
      · have hle := order.rank_le inner
        obtain ⟨k, last, wait, others, hchain, hlast, hothers, hkeeps⟩ :=
          ih (order.bound - order.rank inner) (by omega) hholder hafter rfl
        exact ⟨k, last, wait, others, .head hwaits hchain, hlast, hothers, habove wait hkeeps⟩

end Vnctlsd.Library.LockOrder
