import Vnctlsd.Hub.Grace
import Vnctlsd.Hub.Isolation
import Vnctlsd.Hub.LiveHubs

/-! Who may type.  The hub drops a client from its own thread, and the client's
session, which looks at `is_done` only, does not hear of it. -/
namespace Vnctlsd.HubWorld
open Function Vnctlsd.Library Vnctlsd.Library.Transition ConsoleHub

/-- Whoever is about to write is a read-write client of the hub. -/
def MembersWrite (w : World) : Prop :=
  ∀ sid i data detach, (w.threads sid).pc = .writing i data detach →
    ∃ hub, w.hubs i = some hub ∧ hub.clients.get? sid = some false

/-- The session is in the loop that reads its client's input. -/
def InLoop (thread : Thread) (i : Nat) : Prop :=
  InFlight thread i ∨ thread.readOnly = false ∧ thread.pc = .testing i

/-- A client is found dead only after its session has left its loop, and the
reader's exit finds no session past its test of `is_done`. -/
structure DropsNoWriter (w : World) (label : Label) : Prop where
  dead : ∀ i dead sid, hubAct w label = some (i, .broadcast dead) → sid ∈ dead →
    ¬ InLoop (w.threads sid) i
  cleared : ∀ i sid, hubAct w label = some (i, .clear) → ¬ InFlight (w.threads sid) i

theorem received_inLoop {i j : Nat} {thread : Thread} {data : List UInt8}
    (h : InLoop (received j thread data) i) : thread.readOnly = false ∧ j = i := by
  rcases h with hflight | ⟨hmode, hpc⟩
  · exact received_inFlight hflight.pc
  · cases hreadOnly : thread.readOnly with
    | true =>
        rw [received, if_pos hreadOnly, hreadOnly] at hmode
        cases hmode
    | false =>
        rw [received, if_neg (by simp [hreadOnly])] at hpc
        dsimp only at hpc
        refine ⟨rfl, ?_⟩
        split at hpc
        · unfold afterWrite at hpc
          split at hpc <;> cases hpc
          rfl
        · cases hpc

/-- How a session comes to be in its loop, and past the test there. -/
theorem sessionStep_inLoop {w : World} {sid : String} {thread next : Thread} {act : SessionAct}
    {hubStep : Option (Nat × Act)} {i : Nat}
    (h : sessionStep w sid thread act = some (next, hubStep)) (hloop : InLoop next i) :
    (hubStep = some (i, .addClient sid false) ∧ ¬ InFlight next i) ∨
      (InLoop thread i ∧ (hubStep = none ∨ hubStep = some (i, .writeFailed)) ∧
        (InFlight next i → InFlight thread i ∨ ∃ hub, w.hubs i = some hub ∧ hub.done = false)) := by
  cases sessionStep_cases h with
  | attach | abandon | recvEnd | armGrace | leave =>
      rcases hloop with hflight | ⟨-, hpc⟩
      · cases hflight.pc
      · cases hpc
  | addClient =>
      rcases hloop with hflight | ⟨hmode, hpc⟩
      · cases hflight.pc
      · cases hpc
        have hmode : thread.readOnly = false := hmode
        rw [hmode]
        exact .inl ⟨rfl, fun hflight => by cases hflight.pc⟩
  | @testDone j hub htesting hhub =>
      cases hdone : hub.done with
      | true =>
          rw [hdone] at hloop
          rcases hloop with hflight | ⟨-, hpc⟩
          · cases hflight.pc
          · cases hpc
      | false =>
          rw [hdone] at hloop
          rcases hloop with (⟨hmode, hpc⟩ | ⟨data, detach, hpc⟩) | ⟨-, hpc⟩ <;> cases hpc
          exact .inr ⟨.inr ⟨hmode, htesting⟩, .inl rfl, fun _ => .inr ⟨hub, hhub, hdone⟩⟩
  | @recv j data hreceiving =>
      obtain ⟨hmode, rfl⟩ := received_inLoop hloop
      have hflight : InFlight thread j := .inl ⟨hmode, hreceiving⟩
      exact .inr ⟨.inl hflight, .inl rfl, fun _ => .inl hflight⟩
  | @writeInput j data detach accepted hub hwriting =>
      have hij : j = i := by
        rcases hloop with hflight | ⟨-, hpc⟩
        · have hpc := hflight.pc
          rw [afterWrite_inFlight] at hpc
          cases hpc
        · simp only [afterWrite] at hpc
          split at hpc <;> cases hpc
          rfl
      subst hij
      have hflight : InFlight thread j := .inr ⟨data, detach, hwriting⟩
      refine .inr ⟨.inl hflight, ?_, fun _ => .inl hflight⟩
      split
      · exact .inl rfl
      · exact .inr rfl
  | removeClient =>
      rcases hloop with hflight | ⟨-, hpc⟩
      · have hpc := hflight.pc
        dsimp only at hpc
        split at hpc <;> cases hpc
      · dsimp only at hpc
        split at hpc <;> cases hpc

/-- A session in its loop is a read-write client of its hub; at the test of
`is_done` it may also have been cleared, where the test will send it home. -/
structure Members (w : World) : Prop where
  reachable : ∃ labels, Run step initial labels w
  inFlight : ∀ sid i, InFlight (w.threads sid) i →
    ∃ hub, w.hubs i = some hub ∧ hub.clients.get? sid = some false
  inLoop : ∀ sid i, InLoop (w.threads sid) i →
    ∃ hub, w.hubs i = some hub ∧ (hub.clients.get? sid = some false ∨ hub.done = true)

theorem membersWrite_of_members {w : World} (h : Members w) : MembersWrite w :=
  fun sid i data detach hpc => h.inFlight sid i (.inr ⟨data, detach, hpc⟩)

/-- The steps that take a read-write client out of a hub. -/
def Drops (sid : String) : Act → Prop
  | .removeClient cid => cid = sid
  | .broadcast dead => sid ∈ dead
  | .clear => True
  | .addClient cid readOnly => cid = sid ∧ readOnly = true
  | _ => False

theorem get?_clientsAfter {clients : Dict String Bool} {sid : String} {act : Act}
    (hmember : clients.get? sid = some false) (hact : ¬ Drops sid act) :
    (clientsAfter clients act).get? sid = some false := by
  cases act with
  | addClient cid readOnly =>
      rw [clientsAfter, Dict.get?_set]
      split
      · rename_i heq
        cases readOnly with
        | false => rfl
        | true => exact absurd ⟨heq.symm, rfl⟩ hact
      · exact hmember
  | removeClient cid =>
      rw [clientsAfter, Dict.get?_erase, if_neg fun heq => hact heq.symm]
      exact hmember
  | broadcast dead =>
      have hsid : sid ∉ dead := hact
      rw [clientsAfter, Dict.get?_eraseMany, if_neg hsid]
      exact hmember
  | clear => exact absurd trivial hact
  | _ => exact hmember

/-- A step on the hub takes out no session that is in its loop, except that the
reader's exit may take one that is at the test. -/
theorem drops_inLoop {w : World} {label : Label} {i : Nat} {act : Act} {sid : String}
    (hguard : DropsNoWriter w label) (hact : hubAct w label = some (i, act))
    (hloop : InLoop (w.threads sid) i) (hdrops : Drops sid act) :
    act = .clear ∧ ¬ InFlight (w.threads sid) i := by
  have hpcs : (w.threads sid).pc = .attaching i ∨ (w.threads sid).pc = .removing i → False := by
    intro hpc
    rcases hloop with hflight | ⟨-, hpc'⟩
    · have hflight := hflight.pc
      rcases hpc with hpc | hpc <;> rw [hpc] at hflight <;> cases hflight
    · rcases hpc with hpc | hpc <;> rw [hpc] at hpc' <;> cases hpc'
  cases act with
  | removeClient cid =>
      obtain rfl : cid = sid := hdrops
      cases calls_of_hubAct hact with
      | own hinternal => cases hinternal
      | removeClient hpc => exact absurd (.inr hpc) hpcs
  | addClient cid readOnly =>
      obtain ⟨rfl, -⟩ : cid = sid ∧ readOnly = true := hdrops
      generalize hcall : Act.addClient cid readOnly = act at hact
      cases calls_of_hubAct hact with
      | own hinternal =>
          subst hcall
          cases hinternal
      | addClient hpc =>
          cases hcall
          exact absurd (.inl hpc) hpcs
      | _ => cases hcall
  | broadcast dead => exact absurd hloop (hguard.dead i dead sid hact hdrops)
  | clear => exact ⟨rfl, hguard.cleared i sid hact⟩
  | _ => exact hdrops.elim

section

variable {w next : World} {label : Label} {sid : String} {i : Nat}

/-- A session past the test stays a client of its hub. -/
theorem Members.keeps_inFlight (hinv : Members w) (hguard : DropsNoWriter w label)
    (h : step w label = some next) (hflight : InFlight (w.threads sid) i) :
    ∃ hub, next.hubs i = some hub ∧ hub.clients.get? sid = some false := by
  obtain ⟨⟨labels, hrun⟩, hflights, -⟩ := hinv
  obtain ⟨hub, hhub, hmember⟩ := hflights sid i hflight
  rcases core_keeps (step_core h) (fresh_of_run hrun) hhub with
    hsame | ⟨act, hub', hact, hstep, hnext⟩
  · exact ⟨hub, hsame, hmember⟩
  · refine ⟨hub', hnext, ?_⟩
    rw [step_clients hstep]
    refine get?_clientsAfter hmember fun hdrops => ?_
    exact (drops_inLoop hguard hact (.inl hflight) hdrops).2 hflight

/-- The reader, which takes out whom it likes as it exits, has set `_done` before. -/
theorem Members.keeps_inLoop (hinv : Members w) (hguard : DropsNoWriter w label)
    (h : step w label = some next) (hloop : InLoop (w.threads sid) i) :
    ∃ hub, next.hubs i = some hub ∧ (hub.clients.get? sid = some false ∨ hub.done = true) := by
  obtain ⟨⟨labels, hrun⟩, -, hloops⟩ := hinv
  obtain ⟨hub, hhub, hmember⟩ := hloops sid i hloop
  rcases core_keeps (step_core h) (fresh_of_run hrun) hhub with
    hsame | ⟨act, hub', hact, hstep, hnext⟩
  · exact ⟨hub, hsame, hmember⟩
  · refine ⟨hub', hnext, ?_⟩
    rcases hmember with hmember | hdone
    · by_cases hdrops : Drops sid act
      · obtain ⟨rfl, -⟩ := drops_inLoop hguard hact hloop hdrops
        have hdone := (accounted_of_run hrun i hub hhub).done_of_clear hstep
        exact .inr ((step_frame hstep).done (.inl hdone))
      · rw [step_clients hstep]
        exact .inl (get?_clientsAfter hmember hdrops)
    · exact .inr ((step_frame hstep).done (.inl hdone))

/-- The step after which a session is in its loop was another's, or its own. -/
theorem inLoop_after (h : step w label = some next) (hloop : InLoop (next.threads sid) i) :
    next.threads sid = w.threads sid ∨
      (hubAct w label = some (i, .addClient sid false) ∧ ¬ InFlight (next.threads sid) i) ∨
      (InLoop (w.threads sid) i ∧
        (hubAct w label = none ∨ hubAct w label = some (i, .writeFailed)) ∧
        (InFlight (next.threads sid) i → InFlight (w.threads sid) i ∨
          ∃ hub, w.hubs i = some hub ∧ hub.done = false)) := by
  rcases step_thread h sid with hsame | ⟨name, file, readOnly, j, -, -, hentered⟩ |
    ⟨act, -, hsession⟩
  · exact .inl hsame
  · rw [hentered] at hloop
    rcases hloop with hflight | ⟨-, hpc⟩
    · cases hflight.pc
    · cases hpc
  · exact .inr (sessionStep_inLoop hsession hloop)

end

theorem step_members (w : World) (label : Label) (next : World) (hinv : Members w)
    (hguard : DropsNoWriter w label) (h : step w label = some next) : Members next := by
  obtain ⟨labels, hrun⟩ := hinv.reachable
  have hcore := step_core h
  refine ⟨⟨_, hrun.append (.cons h (.nil _))⟩, ?_, ?_⟩
  · intro sid i hflight
    rcases inLoop_after h (.inl hflight) with hsame | ⟨-, hnot⟩ | ⟨hloop, hidle, hback⟩
    · exact hinv.keeps_inFlight hguard h (hsame ▸ hflight)
    · exact absurd hflight hnot
    · rcases hback hflight with hbefore | ⟨hub, hhub, hlive⟩
      · exact hinv.keeps_inFlight hguard h hbefore
      · -- the session has just found its hub not done
        obtain ⟨found, hfound, hmember | hdone⟩ := hinv.inLoop sid i hloop
        · rcases core_keeps hcore (fresh_of_run hrun) hfound with
            hsame | ⟨act, hub', hact', hstep, hnext⟩
          · exact ⟨found, hsame, hmember⟩
          · refine ⟨hub', hnext, ?_⟩
            rcases hidle with hidle | hidle
            · cases hidle.symm.trans hact'
            · cases hidle.symm.trans hact'
              rw [step_clients hstep]
              exact hmember
        · obtain rfl := Option.some.inj (hhub.symm.trans hfound)
          cases hlive.symm.trans hdone
  · intro sid i hloop
    rcases inLoop_after h hloop with hsame | ⟨hact, -⟩ | ⟨hbefore, -, -⟩
    · exact hinv.keeps_inLoop hguard h (hsame ▸ hloop)
    · rw [hact] at hcore
      cases hcore with
      | hub _ _ hub hub' hhub hstep hfds hheld hhubs =>
          refine ⟨hub', by rw [hhubs, update_self], .inl ?_⟩
          rw [step_clients hstep, clientsAfter, Dict.get?_set, if_pos rfl]
    · exact hinv.keeps_inLoop hguard h hbefore

theorem initial_members : Members initial where
  reachable := ⟨[], .nil _⟩
  inFlight := by
    rintro sid i (⟨-, hpc⟩ | ⟨data, detach, hpc⟩) <;> cases hpc
  inLoop := by
    rintro sid i ((⟨-, hpc⟩ | ⟨data, detach, hpc⟩) | ⟨-, hpc⟩) <;> cases hpc

/-- In every run in which the hub drops no client whose session may still pass
input on, only read-write clients of a hub write to it. -/
theorem membersWrite_of_dropsNoWriter {w : World} {labels : List Label}
    (hrun : GuardedRun step DropsNoWriter initial labels w) : MembersWrite w :=
  membersWrite_of_members (hrun.invariant step_members initial_members)

/-- A client that watches output go by types a key. -/
def watchingRun : List Label :=
  [.acquire 5, .getOrCreate "lab01" 0 (some ("s1", false)), .session "s1" .addClient,
    .session "s1" .testDone, .hub 0 .test, .hub 0 (.read [0x42]), .hub 0 (.broadcast []),
    .session "s1" (.recv [0x69])]

theorem membersWrite_watchingRun :
    ∃ w, exec step initial watchingRun = some w ∧ MembersWrite w := by
  have hkeeps : ∀ {w label}, (∀ i act, hubAct w label = some (i, act) →
      act ≠ .clear ∧ ∀ dead, act = .broadcast dead → dead = []) → DropsNoWriter w label := by
    intro w label hact
    refine ⟨fun i dead sid h hmem => ?_, fun i sid h => absurd rfl (hact i _ h).1⟩
    rw [(hact i _ h).2 dead rfl] at hmem
    cases hmem
  have hrun : ∃ w, exec step initial watchingRun = some w ∧
      GuardedRun step DropsNoWriter initial watchingRun w := by
    refine ⟨_, rfl, .cons (hkeeps ?_) rfl <| .cons (hkeeps ?_) rfl <| .cons (hkeeps ?_) rfl <|
      .cons (hkeeps ?_) rfl <| .cons (hkeeps ?_) rfl <| .cons (hkeeps ?_) rfl <|
      .cons (hkeeps ?_) rfl <| .cons (hkeeps ?_) rfl <| .nil _⟩
    all_goals
      intro i act hact
      cases hact
    case refine_7 =>
      refine ⟨nofun, fun dead heq => ?_⟩
      cases heq
      rfl
    all_goals exact ⟨nofun, nofun⟩
  obtain ⟨w, hexec, hrun⟩ := hrun
  exact ⟨w, hexec, membersWrite_of_dropsNoWriter hrun⟩

/-- The client has closed its receiving side only: output to it fails, and what it
types next still comes in. -/
def halfClosedRun : List Label :=
  [.acquire 5, .getOrCreate "lab01" 0 (some ("s1", false)), .session "s1" .addClient,
    .session "s1" .testDone, .hub 0 .test, .hub 0 (.read [0x42]), .hub 0 (.broadcast ["s1"]),
    .session "s1" (.recv [0x69])]

theorem halfClosedRun_writes :
    ∃ w hub next, Run step initial halfClosedRun w ∧
      (w.threads "s1").pc = .writing 0 [0x69] false ∧ w.hubs 0 = some hub ∧
      hub.clients.keys = [] ∧ step w (.session "s1" (.writeInput true)) = some next ∧
      ¬ MembersWrite w := by
  refine ⟨_, _, _, run_of_exec rfl, rfl, rfl, rfl, rfl, fun h => ?_⟩
  obtain ⟨hub, hhub, hmember⟩ := h "s1" 0 [0x69] false rfl
  cases hhub
  exact absurd hmember (by decide)

end Vnctlsd.HubWorld
