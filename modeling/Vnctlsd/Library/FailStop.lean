import Mathlib.Data.List.Basic

/-! Procedures that change a state step by step and may stop for good at any step.
A contract speaks of the runs that get through. -/
namespace Vnctlsd.Library.FailStop

abbrev Proc (σ : Type u) (ε : Type u) (α : Type u) := StateT σ (Except ε) α

variable {σ ε α β : Type u}

def stop (e : ε) : Proc σ ε α := fun _ => .error e

@[simp] theorem stop_eq_ok_iff (e : ε) (s : σ) (out : α × σ) :
    (stop e : Proc σ ε α) s = .ok out ↔ False := by
  simp [stop]

@[simp] theorem pure_eq_ok_iff (a : α) (s : σ) (out : α × σ) :
    (pure a : Proc σ ε α) s = .ok out ↔ (a, s) = out := by
  show Except.ok (a, s) = Except.ok out ↔ (a, s) = out
  rw [Except.ok.injEq]

@[simp] theorem get_eq_ok_iff (s : σ) (out : σ × σ) :
    (get : Proc σ ε σ) s = .ok out ↔ (s, s) = out := by
  simp [get, getThe, MonadStateOf.get, StateT.get, pure, Except.pure]

@[simp] theorem modify_eq_ok_iff (f : σ → σ) (s : σ) (out : PUnit × σ) :
    (modify f : Proc σ ε PUnit) s = .ok out ↔ (⟨⟩, f s) = out := by
  simp [modify, modifyGet, MonadStateOf.modifyGet, StateT.modifyGet, pure, Except.pure]

@[simp] theorem set_eq_ok_iff (s s' : σ) (out : PUnit × σ) :
    (set s' : Proc σ ε PUnit) s = .ok out ↔ (⟨⟩, s') = out := by
  show Except.ok (PUnit.unit, s') = Except.ok out ↔ (PUnit.unit, s') = out
  rw [Except.ok.injEq]

/-- A sequence gets through where both parts do. -/
@[simp] theorem bind_eq_ok_iff {proc : Proc σ ε α} {next : α → Proc σ ε β} (s : σ)
    (out : β × σ) :
    (proc >>= next) s = .ok out ↔ ∃ a between, proc s = .ok (a, between) ∧
      next a between = .ok out := by
  cases hproc : proc s with
  | error e => simp [Bind.bind, StateT.bind, hproc, Except.bind]
  | ok pair => simp [Bind.bind, StateT.bind, hproc, Except.bind, Prod.ext_iff]

@[simp] theorem ite_eq_ok_iff {c : Prop} [Decidable c] {proc other : Proc σ ε α} (s : σ)
    (out : α × σ) :
    (if c then proc else other) s = .ok out ↔
      (c ∧ proc s = .ok out) ∨ (¬ c ∧ other s = .ok out) := by
  by_cases hc : c <;> simp [hc]

/-- From every state of the kind `pre`, a run that gets through leaves a result and
a state of the kind `post`. -/
def Contract (pre : σ → Prop) (proc : Proc σ ε α) (post : α → σ → Prop) : Prop :=
  ∀ start result finish, pre start → proc start = .ok (result, finish) → post result finish

variable {pre pre' : σ → Prop} {proc : Proc σ ε α} {post : α → σ → Prop}

theorem Contract.bind {next : α → Proc σ ε β} {post : β → σ → Prop} {middle : α → σ → Prop}
    (hfirst : Contract pre proc middle) (hnext : ∀ a, Contract (middle a) (next a) post) :
    Contract pre (proc >>= next) post := by
  intro start result finish hstart hrun
  obtain ⟨a, between, hproc, hrest⟩ := (bind_eq_ok_iff start _).mp hrun
  exact hnext a _ _ _ (hfirst _ _ _ hstart hproc) hrest

theorem contract_pure {a : α} (h : ∀ s, pre s → post a s) :
    Contract pre (pure a : Proc σ ε α) post := by
  intro start result finish hstart hrun
  cases hrun
  exact h start hstart

theorem contract_stop (e : ε) : Contract pre (stop e : Proc σ ε α) post := by
  intro start result finish hstart hrun
  cases hrun

theorem contract_get {post : σ → σ → Prop} (h : ∀ s, pre s → post s s) :
    Contract pre (get : Proc σ ε σ) post := by
  intro start result finish hstart hrun
  cases hrun
  exact h start hstart

theorem contract_modify {f : σ → σ} {post : PUnit → σ → Prop} (h : ∀ s, pre s → post ⟨⟩ (f s)) :
    Contract pre (modify f : Proc σ ε PUnit) post := by
  intro start result finish hstart hrun
  cases hrun
  exact h start hstart

theorem Contract.imp (h : Contract pre proc post) {post' : α → σ → Prop}
    (hpre : ∀ s, pre' s → pre s) (hpost : ∀ a s, post a s → post' a s) :
    Contract pre' proc post' :=
  fun start result finish hstart hrun => hpost _ _ (h start result finish (hpre _ hstart) hrun)

/-- What is known of more than the state is a hypothesis. -/
theorem contract_of_known {known : Prop} (h : known → Contract (fun _ => True) proc post) :
    Contract (fun _ => known) proc post :=
  fun start result finish hknown hrun => h hknown start result finish trivial hrun

/-- One branch under its condition, the other under its negation. -/
theorem contract_ite {c : Prop} [Decidable c] {other : Proc σ ε α}
    (hthen : c → Contract pre proc post) (helse : ¬ c → Contract pre other post) :
    Contract pre (if c then proc else other) post := by
  split
  · exact hthen ‹_›
  · exact helse ‹_›

/-- What every step of a loop keeps, the loop keeps. -/
theorem contract_forM {items : List α} {body : α → Proc σ ε PUnit} {inv : σ → Prop}
    (h : ∀ a ∈ items, Contract inv (body a) fun _ => inv) :
    Contract inv (items.forM body) fun _ => inv := by
  induction items with
  | nil => exact contract_pure fun _ hs => hs
  | cons a rest ih =>
      exact (h a (List.mem_cons_self ..)).bind fun _ =>
        ih fun b hb => h b (List.mem_cons_of_mem _ hb)

end Vnctlsd.Library.FailStop
