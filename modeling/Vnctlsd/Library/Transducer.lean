import Mathlib.Order.Basic

/-! Machines that answer some of their inputs, and two of them compared by what
they answer. -/
namespace Vnctlsd.Library.Transducer

structure Machine (State : Type u) (Input : Type v) (Reply : Type w) where
  next : State → Input → State
  reply : State → Input → Option Reply

variable {State : Type u} {State' : Type u'} {Input : Type v} {Reply : Type w} {Time : Type x}

def Machine.replies (machine : Machine State Input Reply) : State → List Input → List Reply
  | _, [] => []
  | state, input :: rest =>
      (machine.reply state input).toList ++ machine.replies (machine.next state input) rest

variable {left : Machine State Input Reply} {right : Machine State' Input Reply}

/-- Machines that agree from every time on give the same replies to inputs that
come in order. -/
theorem replies_eq [Preorder Time] {time : Input → Time} {related : Time → State → State' → Prop}
    (hstep : ∀ now state state' input, related now state state' → now ≤ time input →
      left.reply state input = right.reply state' input ∧
        related (time input) (left.next state input) (right.next state' input))
    {now : Time} {state : State} {state' : State'} {inputs : List Input}
    (hrelated : related now state state') (hstart : ∀ input ∈ inputs, now ≤ time input)
    (hordered : inputs.Pairwise (time · ≤ time ·)) :
    left.replies state inputs = right.replies state' inputs := by
  induction inputs generalizing now state state' with
  | nil => rfl
  | cons input rest ih =>
      obtain ⟨hfirst, hrest⟩ := List.pairwise_cons.mp hordered
      obtain ⟨hreply, hnext⟩ :=
        hstep now state state' input hrelated (hstart input (List.mem_cons_self ..))
      rw [Machine.replies, Machine.replies, hreply, ih hnext hfirst hrest]

/-- One machine sees only the inputs that are kept, and gives those replies of the
other that are visible. -/
theorem replies_restrict {related : State → State' → Prop} {keep : Input → Bool}
    {visible : Reply → Bool}
    (hkeep : ∀ state state' input, related state state' → keep input = true →
      (left.reply state input).filter visible = right.reply state' input ∧
        related (left.next state input) (right.next state' input))
    (hdrop : ∀ state state' input, related state state' → keep input = false →
      (left.reply state input).filter visible = none ∧ related (left.next state input) state')
    {state : State} {state' : State'} (hrelated : related state state') (inputs : List Input) :
    (left.replies state inputs).filter visible =
      right.replies state' (inputs.filter keep) := by
  induction inputs generalizing state state' with
  | nil => rfl
  | cons input rest ih =>
      rw [Machine.replies, List.filter_append, ← Option.toList_filter]
      cases hkept : keep input with
      | true =>
          obtain ⟨hreply, hnext⟩ := hkeep state state' input hrelated hkept
          rw [List.filter_cons_of_pos hkept, Machine.replies, hreply, ih hnext]
      | false =>
          obtain ⟨hreply, hnext⟩ := hdrop state state' input hrelated hkept
          rw [List.filter_cons_of_neg (by simp [hkept]), hreply, ih hnext]
          rfl

end Vnctlsd.Library.Transducer
