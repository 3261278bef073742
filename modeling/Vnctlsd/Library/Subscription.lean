import Mathlib.Data.List.Basic

/-! What one subscriber of a broadcast is to receive, from what happens to it: it
joins, it leaves, and each chunk reaches it or fails.  A failure ends it too. -/
namespace Vnctlsd.Library.Subscription

variable {α : Type u}

inductive Event (α : Type u) where
  | joined
  | left
  | chunk (data : List α) (sent : Bool)
  deriving DecidableEq

def after (subscribed : Bool) : Event α → Bool
  | .joined => true
  | .left => false
  | .chunk _ sent => subscribed && sent

def received (subscribed : Bool) : Event α → List α
  | .chunk data sent => if subscribed && sent then data else []
  | _ => []

/-- Every chunk from a joining to the next leaving or failure, in order. -/
def stream : Bool → List (Event α) → List α
  | _, [] => []
  | subscribed, event :: events =>
      received subscribed event ++ stream (after subscribed event) events

def subscribed : Bool → List (Event α) → Bool := List.foldl after

def Event.keeps : Event α → Bool
  | .joined => true
  | .left => false
  | .chunk _ sent => sent

def Event.data : Event α → List α
  | .chunk data _ => data
  | _ => []

/-- While nothing ends it, a subscription receives all there is. -/
theorem stream_of_keeps {events : List (Event α)} (h : ∀ event ∈ events, event.keeps = true) :
    stream true events = events.flatMap Event.data := by
  induction events with
  | nil => rfl
  | cons event events ih =>
      have hkeeps := h event (List.mem_cons_self ..)
      have hrest := ih fun other hmem => h other (List.mem_cons_of_mem _ hmem)
      cases event with
      | joined => exact hrest
      | left => cases hkeeps
      | chunk data sent =>
          have hsent : sent = true := hkeeps
          subst hsent
          rw [stream, List.flatMap_cons, ← hrest]
          rfl

theorem stream_append (start : Bool) (left right : List (Event α)) :
    stream start (left ++ right) = stream start left ++ stream (subscribed start left) right := by
  induction left generalizing start with
  | nil => rfl
  | cons event left ih =>
      rw [List.cons_append, stream, ih, stream, List.append_assoc]
      rfl

end Vnctlsd.Library.Subscription
