/-! Computations that read a state others may change between two readings, and
what is certain of their result while part of that state stands still. -/
namespace Vnctlsd.Library.Reads

/-- What is left to do: a result, or one more reading. -/
inductive Inquiry (Env : Type u) (ε : Type u) (α : Type u) where
  | ret (result : Except ε α)
  | read (next : Env → Inquiry Env ε α)

variable {Env ε α β : Type u}

def Inquiry.bind : Inquiry Env ε α → (α → Inquiry Env ε β) → Inquiry Env ε β
  | .ret (.ok value), f => f value
  | .ret (.error e), _ => .ret (.error e)
  | .read next, f => .read fun env => (next env).bind f

instance : Monad (Inquiry Env ε) where
  pure value := .ret (.ok value)
  bind := Inquiry.bind

instance : MonadLift (Except ε) (Inquiry Env ε) := ⟨.ret⟩

def ask (f : Env → Except ε α) : Inquiry Env ε α := .read fun env => .ret (f env)

/-- The next reading, taken in `env`. -/
def Inquiry.next (env : Env) : Inquiry Env ε α → Inquiry Env ε α
  | .ret result => .ret result
  | .read next => next env

/-- All the readings, taken at one time. -/
def Inquiry.run (env : Env) : Inquiry Env ε α → Except ε α
  | .ret result => result
  | .read next => (next env).run env

/-- Whatever is read of states of the kind `known`, the result is of the kind
`post`. -/
def Ensures (known : Env → Prop) (post : Except ε α → Prop) : Inquiry Env ε α → Prop
  | .ret result => post result
  | .read next => ∀ env, known env → Ensures known post (next env)

/-- The one result the readings can have. -/
abbrev Settles (known : Env → Prop) (reads : Inquiry Env ε α) (result : Except ε α) : Prop :=
  Ensures known (· = result) reads

variable {known : Env → Prop} {post : Except ε α → Prop}

theorem Ensures.next {env : Env} {reads : Inquiry Env ε α} (h : Ensures known post reads)
    (henv : known env) : Ensures known post (reads.next env) := by
  cases reads with
  | ret result => exact h
  | read next => exact h env henv

theorem Ensures.imp {post' : Except ε α → Prop} {reads : Inquiry Env ε α}
    (himp : ∀ result, post result → post' result) (h : Ensures known post reads) :
    Ensures known post' reads := by
  induction reads with
  | ret result => exact himp result h
  | read next ih => exact fun env henv => ih env (h env henv)

theorem Ensures.run {env : Env} {reads : Inquiry Env ε α} (h : Ensures known post reads)
    (henv : known env) : post (reads.run env) := by
  induction reads with
  | ret result => exact h
  | read next ih => exact ih env (h env henv)

theorem settles_ask {f : Env → Except ε α} {result : Except ε α}
    (h : ∀ env, known env → f env = result) : Settles known (ask f) result := h

theorem Ensures.ask_bind {f : Env → Except ε α} {value : α} {g : α → Inquiry Env ε β}
    {post : Except ε β → Prop} (hf : ∀ env, known env → f env = .ok value)
    (hg : Ensures known post (g value)) : Ensures known post (ask f >>= g) := by
  intro env henv
  show Ensures known post ((Inquiry.ret (f env)).bind g)
  rw [hf env henv]
  exact hg

/-- A sequence settles as its parts do, one after the other. -/
theorem Settles.bind {reads : Inquiry Env ε α} {result : Except ε α} {f : α → Inquiry Env ε β}
    {g : α → Except ε β} (hreads : Settles known reads result)
    (hf : ∀ value, result = .ok value → Settles known (f value) (g value)) :
    Settles known (reads >>= f) (result >>= g) := by
  induction reads with
  | ret value =>
      obtain rfl : value = result := hreads
      cases value with
      | ok value => exact hf value rfl
      | error e => exact rfl
  | read next ih => exact fun env henv => ih env (hreads env henv)

end Vnctlsd.Library.Reads
