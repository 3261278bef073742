import Mathlib.Data.List.Basic

/-! Programs that put questions to somebody and go on with the answers. -/
namespace Vnctlsd.Library

inductive Dialogue (Question : Type u) (Answer : Type v) (Result : Type w) where
  | done (result : Result)
  | ask (question : Question) (next : Answer → Dialogue Question Answer Result)

namespace Dialogue

variable {Question : Type u} {Answer : Type v} {Result : Type w}

/-- What a dialogue comes to, and what was asked and answered on the way. -/
structure Played (Question : Type u) (Answer : Type v) (Result : Type w) where
  result : Result
  exchanges : List (Question × Answer)

/-- `answer n` is how the question after `n` others is answered. -/
def play (answer : Nat → Question → Answer) (n : Nat) :
    Dialogue Question Answer Result → Played Question Answer Result
  | .done result => ⟨result, []⟩
  | .ask question next =>
      let reply := answer n question
      let rest := (next reply).play answer (n + 1)
      ⟨rest.result, (question, reply) :: rest.exchanges⟩

/-- What holds of every answer holds of every exchange. -/
theorem forall_exchanges {answer : Nat → Question → Answer} {good : Question → Answer → Prop}
    (h : ∀ n question, good question (answer n question))
    (dialogue : Dialogue Question Answer Result) (n : Nat) :
    ∀ exchange ∈ (dialogue.play answer n).exchanges, good exchange.1 exchange.2 := by
  induction dialogue generalizing n with
  | done result => exact fun exchange hmem => absurd hmem List.not_mem_nil
  | ask question next ih =>
      exact List.forall_mem_cons.mpr ⟨h n question, ih _ (n + 1)⟩

end Dialogue

end Vnctlsd.Library
