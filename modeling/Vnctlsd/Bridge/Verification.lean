import Vnctlsd.Library.Quiescence
import Vnctlsd.Library.Threads

/-! The verifications that run at the same time.  Each thread of the bridge forks a
child for its own attempt and reads the verdict from a pipe, and every child starts with
copies of all the write ends that the bridge has open at that moment. -/
namespace Vnctlsd.Bridge.Verification
open Vnctlsd.Library Vnctlsd.Library.Transition Vnctlsd.Library.Quiescence
open Vnctlsd.Library.Threads

/-- Where a thread is in `_verify_subprocess`.  `failed` is an exception of `os.pipe` or
`os.fork`, which leaves the ends of a pipe that exists open. -/
inductive Pc where
  | begun
  | piped
  | forked
  | reading
  | waiting (result : List UInt8)
  | done (result : List UInt8)
  | failed (leaked : Bool)
  deriving DecidableEq

/-- `failing` is the handler that writes a zero, `closing` the `finally`. -/
inductive Child where
  | unborn
  | verifying
  | failing
  | closing
  | exited
  deriving DecidableEq

/-- `holds` are the attempts whose write ends the child was born with. -/
structure Attempt where
  pc : Pc
  child : Child
  buffer : List UInt8
  holds : List Nat
  deriving DecidableEq

def Attempt.start : Attempt := ⟨.begun, .unborn, [], []⟩

/-- The bridge itself has the write end of the pipe open. -/
def Pc.opened : Pc → Bool
  | .piped | .forked | .failed true => true
  | _ => false

def Child.alive : Child → Bool
  | .verifying | .failing | .closing => true
  | _ => false

def Attempt.ends (attempt : Attempt) : List Nat :=
  if attempt.child.alive then attempt.holds else []

/-- `verdict` is what `_pam_verify` returns and whether it can be written, `raise` an
exception before that, `kill` the end of the child by a signal. -/
inductive Action where
  | pipe (ok : Bool)
  | fork (ok : Bool)
  | close
  | verdict (ok wrote : Bool)
  | raise
  | fallback (wrote : Bool)
  | exit
  | kill
  | read
  | readFails
  | waitpid
  deriving DecidableEq

def verdictByte (ok : Bool) : UInt8 := if ok then 1 else 0

/-- `ends` are the write ends that the bridge has open, and `eof` tells whether nobody
has the write end of this attempt.  A child that the handler of `SIGCHLD` has reaped is
no different from one that `waitpid` reaps. -/
def Attempt.step (ends : List Nat) (eof : Bool) (attempt : Attempt) : Action → Option Attempt
  | .pipe ok =>
      if attempt.pc = .begun then
        some { attempt with pc := if ok then .piped else .failed false }
      else none
  | .fork ok =>
      if attempt.pc = .piped then
        some (if ok then { attempt with pc := .forked, child := .verifying, holds := ends }
          else { attempt with pc := .failed true })
      else none
  | .close => if attempt.pc = .forked then some { attempt with pc := .reading } else none
  | .verdict ok wrote =>
      if attempt.child = .verifying then
        some (if wrote then
            { attempt with child := .closing, buffer := attempt.buffer ++ [verdictByte ok] }
          else { attempt with child := .failing })
      else none
  | .raise =>
      if attempt.child = .verifying then some { attempt with child := .failing } else none
  | .fallback wrote =>
      if attempt.child = .failing then
        some (if wrote then
            { attempt with child := .closing, buffer := attempt.buffer ++ [0] }
          else { attempt with child := .closing })
      else none
  | .exit => if attempt.child = .closing then some { attempt with child := .exited } else none
  | .kill => if attempt.child.alive then some { attempt with child := .exited } else none
  | .read =>
      if attempt.pc = .reading ∧ (attempt.buffer ≠ [] ∨ eof) then
        some { attempt with
          pc := .waiting (attempt.buffer.take 1), buffer := attempt.buffer.drop 1 }
      else none
  | .readFails =>
      if attempt.pc = .reading then some { attempt with pc := .waiting [0] } else none
  | .waitpid =>
      match attempt.pc with
      | .waiting result =>
          if attempt.child = .exited then some { attempt with pc := .done result } else none
      | _ => none

/-- `helpers` are the children of `_spawn_helper` before their `execv`, which closes
what they were born with. -/
structure World where
  attempts : List Attempt
  helpers : List (List Nat)
  deriving DecidableEq

def World.start : World := ⟨[], []⟩

def World.openEnds (world : World) : List Nat :=
  (List.range world.attempts.length).filter fun i =>
    (world.attempts[i]?.map fun attempt => attempt.pc.opened).getD false

/-- No process has the write end of the attempt at `i` open. -/
def World.eof (world : World) (i : Nat) : Bool :=
  decide (i ∉ world.openEnds) && world.attempts.all (fun other => decide (i ∉ other.ends)) &&
    world.helpers.all fun ends => decide (i ∉ ends)

inductive Event where
  | begin
  | spawn
  | exec (n : Nat)
  | act (i : Nat) (action : Action)
  deriving DecidableEq

def step (world : World) : Event → Option World
  | .begin => some { world with attempts := world.attempts ++ [.start] }
  | .spawn => some { world with helpers := world.helpers ++ [world.openEnds] }
  | .exec n =>
      if n < world.helpers.length then
        some { world with helpers := world.helpers.eraseIdx n }
      else none
  | .act i action =>
      (turn world.attempts i fun attempt =>
        attempt.step world.openEnds (world.eof i) action).map fun attempts =>
          { world with attempts }

/-- What needs neither PAM nor an accident. -/
def Action.Own : Action → Prop
  | .pipe _ | .fork _ | .close | .fallback _ | .exit | .read | .waitpid => True
  | .verdict _ _ | .raise | .kill | .readFails => False

def Own : Event → Prop
  | .exec _ => True
  | .act _ action => action.Own
  | .begin | .spawn => False

theorem act_cases {world next : World} {i : Nat} {action : Action}
    (h : step world (.act i action) = some next) :
    ∃ before after, world.attempts[i]? = some before ∧
      before.step world.openEnds (world.eof i) action = some after ∧
      next = { world with attempts := world.attempts.set i after } := by
  obtain ⟨attempts, hturn, rfl⟩ := Option.map_eq_some_iff.mp h
  obtain ⟨before, after, hbefore, hstep, rfl⟩ := turn_cases hturn
  exact ⟨before, after, hbefore, hstep, rfl⟩

theorem act_eq_none_iff {world : World} {i : Nat} {action : Action} {attempt : Attempt}
    (hattempt : world.attempts[i]? = some attempt) :
    step world (.act i action) = none ↔
      attempt.step world.openEnds (world.eof i) action = none := by
  rw [step, Option.map_eq_none_iff, turn_eq_none_iff hattempt]

theorem mem_openEnds {world : World} {i : Nat} {attempt : Attempt}
    (hattempt : world.attempts[i]? = some attempt) :
    i ∈ world.openEnds ↔ attempt.pc.opened = true := by
  obtain ⟨hlength, rfl⟩ := List.getElem?_eq_some_iff.mp hattempt
  simp [World.openEnds, hlength]

/-! What has happened to one attempt, and what its state tells of it. -/

def Event.action (i : Nat) : Event → Option Action
  | .act j action => if j = i then some action else none
  | _ => none

def actions (events : List Event) (i : Nat) : List Action := events.filterMap (Event.action i)

theorem actions_snoc (events : List Event) (event : Event) (i : Nat) :
    actions (events ++ [event]) i = actions events i ++ (event.action i).toList := by
  rw [actions, List.filterMap_append]
  rfl

/-- No verdict has been written, and none has been given up. -/
def Child.silent : Child → Bool
  | .unborn | .verifying | .failing => true
  | _ => false

def Pc.early : Pc → Bool
  | .begun | .piped | .failed _ => true
  | _ => false

/-- What `os.read` has returned. -/
def Pc.result : Pc → Option (List UInt8)
  | .waiting result | .done result => some result
  | _ => none

/-- The bytes in a pipe, against what has happened. -/
inductive Said (past : List Action) : List UInt8 → Prop where
  | nothing : .verdict true true ∉ past → Said past []
  | yes : .verdict true true ∈ past → Said past [verdictByte true]
  | no : .verdict true true ∉ past → Said past [verdictByte false]

structure Recorded (i : Nat) (past : List Action) (attempt : Attempt) : Prop where
  born : attempt.child = .unborn ↔ attempt.pc.early = true
  holds : attempt.child.alive = true → i ∈ attempt.holds
  silent : attempt.child.silent = true → attempt.buffer = [] ∧ .verdict true true ∉ past
  said : attempt.pc.result = none → Said past attempt.buffer
  mute : attempt.pc.result = none → attempt.child.silent = false → attempt.buffer = [] →
    .kill ∈ past ∨ .fallback false ∈ past
  heard : ∀ result, attempt.pc.result = some result →
    (result = [1] → .verdict true true ∈ past) ∧
    (.verdict true true ∈ past → result = [1] ∨ .readFails ∈ past) ∧
    (attempt.child.silent = true → .readFails ∈ past)

theorem recorded_start (i : Nat) : Recorded i [] .start where
  born := by decide
  holds := nofun
  silent := fun _ => ⟨rfl, List.not_mem_nil⟩
  said := fun _ => .nothing List.not_mem_nil
  mute := nofun
  heard := nofun

section
variable {i : Nat} {past : List Action} {action : Action} {ends : List Nat} {eof : Bool}
  {attempt next : Attempt}

theorem mem_snoc_iff {other : Action} (hne : other ≠ action) :
    other ∈ past ++ [action] ↔ other ∈ past := by
  rw [List.mem_append, List.mem_singleton, or_iff_left hne]

theorem Said.snoc {buffer : List UInt8} (h : Said past buffer)
    (hne : Action.verdict true true ≠ action) : Said (past ++ [action]) buffer := by
  cases h with
  | nothing hnot => exact .nothing (mt (mem_snoc_iff hne).mp hnot)
  | yes hyes => exact .yes ((mem_snoc_iff hne).mpr hyes)
  | no hnot => exact .no (mt (mem_snoc_iff hne).mp hnot)

theorem Said.take_eq_iff {buffer : List UInt8} (h : Said past buffer) :
    buffer.take 1 = [1] ↔ .verdict true true ∈ past := by
  cases h with
  | nothing hnot => exact iff_of_false nofun hnot
  | yes hyes => exact iff_of_true rfl hyes
  | no hnot => exact iff_of_false (by decide) hnot

/-- A step of the thread before `os.read`, or a step of the child that says nothing. -/
theorem Recorded.moved (h : Recorded i past attempt)
    (hverdict : Action.verdict true true ≠ action)
    (hborn : next.child = .unborn ↔ next.pc.early = true)
    (hholds : next.child.alive = true → i ∈ next.holds)
    (hbuffer : next.buffer = attempt.buffer) (hresult : next.pc.result = attempt.pc.result)
    (hsilent : next.child.silent = true → attempt.child.silent = true)
    (hmute : next.child.silent = false → attempt.child.silent = true →
      action = .kill ∨ action = .fallback false) :
    Recorded i (past ++ [action]) next where
  born := hborn
  holds := hholds
  silent := fun hnext => by
    rw [hbuffer, mem_snoc_iff hverdict]
    exact h.silent (hsilent hnext)
  said := fun hnext => by
    rw [hbuffer]
    exact (h.said (hresult ▸ hnext)).snoc hverdict
  mute := fun hnext hloud hempty => by
    rw [List.mem_append, List.mem_append, List.mem_singleton, List.mem_singleton]
    cases hbefore : attempt.child.silent with
    | true =>
        rcases hmute hloud hbefore with rfl | rfl
        · exact .inl (.inr rfl)
        · exact .inr (.inr rfl)
    | false =>
        exact (h.mute (hresult ▸ hnext) hbefore (hbuffer ▸ hempty)).imp .inl .inl
  heard := fun result hnext => by
    obtain ⟨hyes, hheard, hpending⟩ := h.heard result (hresult ▸ hnext)
    rw [mem_snoc_iff hverdict]
    exact ⟨hyes, fun hmem => (hheard hmem).imp id (List.mem_append_left _),
      fun hnext => List.mem_append_left _ (hpending (hsilent hnext))⟩

/-- The child writes its byte. -/
theorem Recorded.written (h : Recorded i past attempt) (ok : Bool)
    (haction : action = .verdict ok true ∨ action = .fallback true ∧ ok = false)
    (hsilent : attempt.child.silent = true) (hborn : attempt.child ≠ .unborn)
    (hholds : i ∈ attempt.holds) :
    Recorded i (past ++ [action])
      { attempt with child := .closing, buffer := attempt.buffer ++ [verdictByte ok] } where
  born := iff_of_false nofun (mt h.born.mpr hborn)
  holds := fun _ => hholds
  silent := nofun
  said := fun _ => by
    obtain ⟨hempty, hnot⟩ := h.silent hsilent
    rw [hempty, List.nil_append]
    cases ok with
    | true =>
        rcases haction with rfl | ⟨-, hok⟩
        · exact .yes (List.mem_append_right _ (List.mem_singleton_self _))
        · cases hok
    | false =>
        refine .no (mt (mem_snoc_iff ?_).mp hnot)
        rcases haction with rfl | ⟨rfl, -⟩ <;> nofun
  mute := fun _ _ hempty => absurd hempty (by simp)
  heard := fun result hresult => by
    obtain ⟨hyes, -, hpending⟩ := h.heard result hresult
    have hfailed := List.mem_append_left [action] (hpending hsilent)
    exact ⟨fun hone => List.mem_append_left _ (hyes hone), fun _ => .inr hfailed, nofun⟩

/-- `os.read` returns what there is. -/
theorem Recorded.read (h : Recorded i past attempt) (hpc : attempt.pc = .reading)
    (hready : attempt.buffer ≠ [] ∨ attempt.child.alive = false) :
    Recorded i (past ++ [.read])
      { attempt with
        pc := .waiting (attempt.buffer.take 1), buffer := attempt.buffer.drop 1 } := by
  have hunread : attempt.pc.result = none := by
    rw [hpc]
    rfl
  have hborn : attempt.child ≠ .unborn := by
    intro hunborn
    have hearly := h.born.mp hunborn
    rw [hpc] at hearly
    cases hearly
  have hloud : attempt.child.silent = false := by
    rcases hready with hbuffer | hdead
    · exact Bool.eq_false_iff.mpr fun hsilent => hbuffer (h.silent hsilent).1
    · cases hchild : attempt.child with
      | unborn => exact absurd hchild hborn
      | verifying | failing => simp [hchild, Child.alive] at hdead
      | closing | exited => rfl
  have hverdict : Action.verdict true true ≠ .read := nofun
  refine ⟨iff_of_false hborn nofun, h.holds, fun hsilent => ?_, nofun, nofun,
    fun result hresult => ?_⟩
  · rw [hloud] at hsilent
    cases hsilent
  · cases hresult
    rw [mem_snoc_iff hverdict]
    have hheard := (h.said hunread).take_eq_iff
    refine ⟨hheard.mp, fun hyes => .inl (hheard.mpr hyes), fun hsilent => ?_⟩
    rw [hloud] at hsilent
    cases hsilent

theorem Recorded.step (h : Recorded i past attempt)
    (hstep : attempt.step ends eof action = some next)
    (hends : attempt.pc.opened = true → i ∈ ends)
    (heof : eof = true → attempt.child.alive = false) : Recorded i (past ++ [action]) next := by
  have hbornOf : ∀ {pc : Pc}, attempt.pc = pc → (attempt.child = .unborn ↔ pc.early = true) :=
    fun hpc => hpc ▸ h.born
  have hresultOf : ∀ {pc : Pc}, attempt.pc = pc → attempt.pc.result = pc.result :=
    fun hpc => congrArg Pc.result hpc
  have hverifyingOf : attempt.child.alive = true → attempt.child ≠ .unborn := by
    intro halive hunborn
    rw [hunborn] at halive
    cases halive
  cases action with
  | pipe ok =>
      obtain ⟨hpc, ⟨⟩⟩ := Option.ite_none_right_eq_some.mp hstep
      have hearly := (hbornOf hpc).mpr rfl
      refine h.moved nofun (iff_of_true hearly ?_) h.holds rfl ?_ id fun hloud hsilent => ?_
      · cases ok <;> rfl
      · rw [hresultOf hpc]
        cases ok <;> rfl
      · exact absurd (hloud.symm.trans hsilent) (by decide)
  | fork ok =>
      obtain ⟨hpc, hnext⟩ := Option.ite_none_right_eq_some.mp hstep
      have hearly := (hbornOf hpc).mpr rfl
      cases ok with
      | true =>
          cases hnext
          exact h.moved nofun (iff_of_false nofun nofun) (fun _ => hends (by rw [hpc]; rfl)) rfl
            (hresultOf hpc).symm (fun _ => by rw [hearly]; rfl) nofun
      | false =>
          cases hnext
          exact h.moved nofun (iff_of_true hearly rfl) h.holds rfl (hresultOf hpc).symm id
            fun hloud hsilent => absurd (hloud.symm.trans hsilent) (by decide)
  | close =>
      obtain ⟨hpc, ⟨⟩⟩ := Option.ite_none_right_eq_some.mp hstep
      exact h.moved nofun (iff_of_false (mt (hbornOf hpc).mp nofun) nofun) h.holds rfl
          (hresultOf hpc).symm id
        fun hloud hsilent => absurd (hloud.symm.trans hsilent) (by decide)
  | verdict ok wrote =>
      obtain ⟨hchild, hnext⟩ := Option.ite_none_right_eq_some.mp hstep
      have halive : attempt.child.alive = true := by rw [hchild]; rfl
      have hsilent : attempt.child.silent = true := by rw [hchild]; rfl
      cases wrote with
      | true =>
          cases hnext
          exact h.written ok (.inl rfl) hsilent (hverifyingOf halive) (h.holds halive)
      | false =>
          cases hnext
          exact h.moved nofun (iff_of_false nofun (mt h.born.mpr (hverifyingOf halive)))
            (fun _ => h.holds halive) rfl rfl (fun _ => hsilent) nofun
  | raise =>
      obtain ⟨hchild, ⟨⟩⟩ := Option.ite_none_right_eq_some.mp hstep
      have halive : attempt.child.alive = true := by rw [hchild]; rfl
      exact h.moved nofun (iff_of_false nofun (mt h.born.mpr (hverifyingOf halive)))
        (fun _ => h.holds halive) rfl rfl (fun _ => by rw [hchild]; rfl) nofun
  | fallback wrote =>
      obtain ⟨hchild, hnext⟩ := Option.ite_none_right_eq_some.mp hstep
      have halive : attempt.child.alive = true := by rw [hchild]; rfl
      have hsilent : attempt.child.silent = true := by rw [hchild]; rfl
      cases wrote with
      | true =>
          cases hnext
          exact h.written false (.inr ⟨rfl, rfl⟩) hsilent (hverifyingOf halive) (h.holds halive)
      | false =>
          cases hnext
          exact h.moved nofun (iff_of_false nofun (mt h.born.mpr (hverifyingOf halive)))
            (fun _ => h.holds halive) rfl rfl nofun fun _ _ => .inr rfl
  | exit =>
      obtain ⟨hchild, ⟨⟩⟩ := Option.ite_none_right_eq_some.mp hstep
      have halive : attempt.child.alive = true := by rw [hchild]; rfl
      refine h.moved nofun (iff_of_false nofun (mt h.born.mpr (hverifyingOf halive))) nofun rfl
        rfl nofun fun _ hsilent => ?_
      rw [hchild] at hsilent
      cases hsilent
  | kill =>
      obtain ⟨halive, ⟨⟩⟩ := Option.ite_none_right_eq_some.mp hstep
      exact h.moved nofun (iff_of_false nofun (mt h.born.mpr (hverifyingOf halive))) nofun rfl
        rfl nofun fun _ _ => .inl rfl
  | read =>
      obtain ⟨⟨hpc, hready⟩, ⟨⟩⟩ := Option.ite_none_right_eq_some.mp hstep
      exact h.read hpc (hready.imp id heof)
  | readFails =>
      obtain ⟨hpc, ⟨⟩⟩ := Option.ite_none_right_eq_some.mp hstep
      have hlast := List.mem_append_right past (List.mem_singleton_self Action.readFails)
      refine ⟨iff_of_false (mt (hbornOf hpc).mp nofun) nofun, h.holds, fun hsilent => ?_, nofun,
        nofun, fun result hresult => ?_⟩
      · obtain ⟨hempty, hnot⟩ := h.silent hsilent
        exact ⟨hempty, mt (mem_snoc_iff (by nofun)).mp hnot⟩
      · cases hresult
        exact ⟨fun hone => absurd hone (by decide), fun _ => .inr hlast, fun _ => hlast⟩
  | waitpid =>
      simp only [Attempt.step] at hstep
      split at hstep
      · rename_i result hpc
        obtain ⟨hchild, ⟨⟩⟩ := Option.ite_none_right_eq_some.mp hstep
        exact h.moved nofun (iff_of_false (mt (hbornOf hpc).mp nofun) nofun) h.holds rfl
          (hresultOf hpc).symm id
          fun hloud hsilent => absurd (hloud.symm.trans hsilent) (by decide)
      · cases hstep

end

variable {world : World} {events : List Event}

structure Accounted (events : List Event) (world : World) : Prop where
  recorded : ∀ i attempt, world.attempts[i]? = some attempt →
    Recorded i (actions events i) attempt
  unheard : ∀ i, world.attempts.length ≤ i → actions events i = []

theorem actions_snoc_of_none {event : Event} {i : Nat} (h : event.action i = none) :
    actions (events ++ [event]) i = actions events i := by
  rw [actions_snoc, h, Option.toList_none, List.append_nil]

theorem actions_snoc_self {i : Nat} {action : Action} :
    actions (events ++ [.act i action]) i = actions events i ++ [action] := by
  rw [actions_snoc, Event.action, if_pos rfl, Option.toList_some]

theorem not_alive_of_eof {i : Nat} {attempt : Attempt}
    (hattempt : world.attempts[i]? = some attempt)
    (hholds : attempt.child.alive = true → i ∈ attempt.holds) (heof : world.eof i = true) :
    attempt.child.alive = false := by
  simp only [World.eof, Bool.and_eq_true, List.all_eq_true, decide_eq_true_eq] at heof
  have hends := heof.1.2 attempt (List.mem_of_getElem? hattempt)
  by_contra halive
  have halive : attempt.child.alive = true := Bool.not_eq_false _ ▸ halive
  rw [Attempt.ends, if_pos halive] at hends
  exact hends (hholds halive)

theorem Accounted.quietly {next : World} {event : Event} (h : Accounted events world)
    (hattempts : next.attempts = world.attempts) (hevent : ∀ i, event.action i = none) :
    Accounted (events ++ [event]) next where
  recorded := fun i attempt hattempt => by
    rw [actions_snoc_of_none (hevent i)]
    exact h.recorded i attempt (hattempts ▸ hattempt)
  unheard := fun i hi => by
    rw [actions_snoc_of_none (hevent i)]
    exact h.unheard i (hattempts ▸ hi)

theorem accounted_step {next : World} {event : Event} (h : Accounted events world)
    (hstep : step world event = some next) : Accounted (events ++ [event]) next := by
  cases event with
  | begin =>
      cases hstep
      constructor
      · intro i attempt hattempt
        rw [actions_snoc_of_none rfl]
        rcases Nat.lt_trichotomy i world.attempts.length with hi | rfl | hi
        · rw [List.getElem?_append_left hi] at hattempt
          exact h.recorded i attempt hattempt
        · rw [List.getElem?_concat_length] at hattempt
          cases hattempt
          rw [h.unheard _ (Nat.le_refl _)]
          exact recorded_start _
        · rw [List.getElem?_eq_none (by simpa [Nat.succ_le_iff] using hi)] at hattempt
          cases hattempt
      · intro i hi
        rw [actions_snoc_of_none rfl]
        exact h.unheard i (Nat.le_trans (by simp) hi)
  | spawn =>
      cases hstep
      exact h.quietly rfl fun _ => rfl
  | exec n =>
      obtain ⟨-, ⟨⟩⟩ := Option.ite_none_right_eq_some.mp hstep
      exact h.quietly rfl fun _ => rfl
  | act i action =>
      obtain ⟨before, after, hbefore, hmove, rfl⟩ := act_cases hstep
      have hrecorded := h.recorded i before hbefore
      constructor
      · refine forall_set (fun j attempt hj hattempt => ?_) ?_
        · rw [actions_snoc_of_none (by rw [Event.action, if_neg (Ne.symm hj)])]
          exact h.recorded j attempt hattempt
        · rw [actions_snoc_self]
          exact hrecorded.step hmove (mem_openEnds hbefore).mpr
            (not_alive_of_eof hbefore hrecorded.holds)
      · intro j hj
        rw [List.length_set] at hj
        obtain ⟨hi, -⟩ := List.getElem?_eq_some_iff.mp hbefore
        rw [actions_snoc_of_none (by rw [Event.action, if_neg (by omega)])]
        exact h.unheard j hj

theorem accounted (hrun : Run step .start events world) : Accounted events world :=
  (hrun.guarded (fun _ _ => trivial)).history
    (fun _ _ _ _ hpast _ hstep => accounted_step hpast hstep) ⟨nofun, fun _ _ => rfl⟩

/-! Left to themselves the attempts come to rest. -/

def Pc.measure : Pc → Nat
  | .begun => 5
  | .piped => 4
  | .forked => 3
  | .reading => 2
  | .waiting _ => 1
  | .done _ | .failed _ => 0

def Child.measure : Child → Nat
  | .failing => 2
  | .closing => 1
  | .unborn | .verifying | .exited => 0

def Attempt.measure (attempt : Attempt) : Nat := attempt.pc.measure + attempt.child.measure

def World.measure (world : World) : Nat :=
  (world.attempts.map Attempt.measure).sum + world.helpers.length

theorem Attempt.measure_step {ends : List Nat} {eof : Bool} {attempt next : Attempt}
    {action : Action} (hown : action.Own) (h : attempt.step ends eof action = some next) :
    next.measure < attempt.measure := by
  cases action with
  | pipe ok =>
      obtain ⟨hpc, ⟨⟩⟩ := Option.ite_none_right_eq_some.mp h
      cases ok <;> simp [measure, Pc.measure, hpc]
  | fork ok =>
      obtain ⟨hpc, hnext⟩ := Option.ite_none_right_eq_some.mp h
      cases ok <;> cases hnext <;> simp [measure, Pc.measure, Child.measure, hpc]
      omega
  | close =>
      obtain ⟨hpc, ⟨⟩⟩ := Option.ite_none_right_eq_some.mp h
      simp [measure, Pc.measure, hpc]
  | fallback wrote =>
      obtain ⟨hchild, hnext⟩ := Option.ite_none_right_eq_some.mp h
      cases wrote <;> cases hnext <;> simp [measure, Child.measure, hchild]
  | exit =>
      obtain ⟨hchild, ⟨⟩⟩ := Option.ite_none_right_eq_some.mp h
      simp [measure, Child.measure, hchild]
  | read =>
      obtain ⟨⟨hpc, -⟩, ⟨⟩⟩ := Option.ite_none_right_eq_some.mp h
      simp [measure, Pc.measure, hpc]
  | waitpid =>
      simp only [Attempt.step] at h
      split at h
      · rename_i hpc
        obtain ⟨-, ⟨⟩⟩ := Option.ite_none_right_eq_some.mp h
        simp [measure, Pc.measure, hpc]
      · cases h
  | verdict | raise | kill | readFails => cases hown

theorem lowers : Lowers step Own World.measure := by
  intro world event next hown hstep
  cases event with
  | exec n =>
      obtain ⟨hn, ⟨⟩⟩ := Option.ite_none_right_eq_some.mp hstep
      simp only [World.measure, List.length_eraseIdx, if_pos hn]
      omega
  | act i action =>
      obtain ⟨before, after, hbefore, hmove, rfl⟩ := act_cases hstep
      have hsum := sum_map_set Attempt.measure after hbefore
      have hlower := before.measure_step hown hmove
      simp only [World.measure]
      omega
  | begin | spawn => cases hown

/-! At rest. -/

variable {i : Nat} {attempt : Attempt}

theorem helpers_of_quiet (hquiet : Quiet step Own world) : world.helpers = [] := by
  by_contra hhelpers
  have hexec : step world (.exec 0) = none := hquiet (.exec 0) trivial
  rw [step, if_pos (List.length_pos_iff.mpr hhelpers)] at hexec
  cases hexec

theorem stays_of_quiet (hquiet : Quiet step Own world)
    (hattempt : world.attempts[i]? = some attempt) (action : Action) (hown : action.Own) :
    attempt.step world.openEnds (world.eof i) action = none :=
  (act_eq_none_iff hattempt).mp (hquiet (.act i action) hown)

/-- A child that lives is in PAM. -/
theorem verifying_of_quiet (hquiet : Quiet step Own world)
    (hattempt : world.attempts[i]? = some attempt) (halive : attempt.child.alive = true) :
    attempt.child = .verifying := by
  cases hchild : attempt.child with
  | verifying => rfl
  | failing =>
      have hstays := stays_of_quiet hquiet hattempt (.fallback true) trivial
      rw [Attempt.step, if_pos hchild] at hstays
      cases hstays
  | closing =>
      have hstays := stays_of_quiet hquiet hattempt .exit trivial
      rw [Attempt.step, if_pos hchild] at hstays
      cases hstays
  | unborn | exited =>
      rw [hchild] at halive
      cases halive

/-- The thread is past `_verify_subprocess`. -/
def Pc.Ended : Pc → Prop
  | .done _ | .failed _ => True
  | _ => False

theorem born_of_quiet (hquiet : Quiet step Own world)
    (hattempt : world.attempts[i]? = some attempt) (hended : ¬ attempt.pc.Ended) :
    attempt.pc = .reading ∨ ∃ result, attempt.pc = .waiting result := by
  cases hpc : attempt.pc with
  | begun =>
      have hstays := stays_of_quiet hquiet hattempt (.pipe true) trivial
      rw [Attempt.step, if_pos hpc] at hstays
      cases hstays
  | piped =>
      have hstays := stays_of_quiet hquiet hattempt (.fork true) trivial
      rw [Attempt.step, if_pos hpc] at hstays
      cases hstays
  | forked =>
      have hstays := stays_of_quiet hquiet hattempt .close trivial
      rw [Attempt.step, if_pos hpc] at hstays
      cases hstays
  | reading => exact .inl rfl
  | waiting result => exact .inr ⟨result, rfl⟩
  | done result =>
      rw [hpc] at hended
      exact absurd trivial hended
  | failed leaked =>
      rw [hpc] at hended
      exact absurd trivial hended

/-- Some child in PAM has the write end that a reader waits for. -/
theorem holder_of_quiet (hquiet : Quiet step Own world)
    (hattempt : world.attempts[i]? = some attempt) (hpc : attempt.pc = .reading) :
    attempt.buffer = [] ∧ ∃ (k : Nat) (other : Attempt), world.attempts[k]? = some other ∧
      other.child = .verifying ∧ i ∈ other.holds := by
  have hstays := stays_of_quiet hquiet hattempt .read trivial
  have hblocked : ¬ (attempt.buffer ≠ [] ∨ world.eof i = true) := fun hready => by
    rw [Attempt.step, if_pos ⟨hpc, hready⟩] at hstays
    cases hstays
  rw [not_or, not_not] at hblocked
  refine ⟨hblocked.1, ?_⟩
  have hclosed : i ∉ world.openEnds := fun hmem => by
    rw [mem_openEnds hattempt, hpc] at hmem
    cases hmem
  have hheld := hblocked.2
  simp only [World.eof, helpers_of_quiet hquiet, hclosed, not_false_eq_true, decide_true,
    Bool.true_and, List.all_nil, Bool.and_true, List.all_eq_true, decide_eq_true_eq, not_forall,
    not_not] at hheld
  obtain ⟨other, hmem, hends⟩ := hheld
  obtain ⟨k, hother⟩ := List.mem_iff_getElem?.mp hmem
  have halive : other.child.alive = true := by
    by_contra hdead
    rw [Attempt.ends, if_neg hdead] at hends
    cases hends
  rw [Attempt.ends, if_pos halive] at hends
  exact ⟨k, other, hother, verifying_of_quiet hquiet hother halive, hends⟩

/-- What keeps an attempt at rest from its end. -/
theorem kept_of_quiet (hquiet : Quiet step Own world)
    (hattempt : world.attempts[i]? = some attempt)
    (hrecorded : Recorded i (actions events i) attempt) (hended : ¬ attempt.pc.Ended) :
    attempt.child = .verifying ∨ attempt.child = .exited ∧
      (.kill ∈ actions events i ∨ .fallback false ∈ actions events i) ∧
      ∃ (k : Nat) (other : Attempt), k ≠ i ∧ world.attempts[k]? = some other ∧
        other.child = .verifying ∧ i ∈ other.holds := by
  by_cases halive : attempt.child.alive = true
  · exact .inl (verifying_of_quiet hquiet hattempt halive)
  have hpc := born_of_quiet hquiet hattempt hended
  have hexited : attempt.child = .exited := by
    cases hchild : attempt.child with
    | exited => rfl
    | unborn =>
        have hearly := hrecorded.born.mp hchild
        rcases hpc with hpc | ⟨result, hpc⟩ <;> rw [hpc] at hearly <;> cases hearly
    | verifying | failing | closing =>
        rw [hchild] at halive
        exact absurd rfl halive
  rcases hpc with hpc | ⟨result, hpc⟩
  · obtain ⟨hempty, k, other, hother, hverifying, hholds⟩ := holder_of_quiet hquiet hattempt hpc
    have hmute := hrecorded.mute (by rw [hpc]; rfl) (by rw [hexited]; rfl) hempty
    refine .inr ⟨hexited, hmute, k, other, ?_, hother, hverifying, hholds⟩
    rintro rfl
    rw [hattempt] at hother
    cases hother
    rw [hexited] at hverifying
    cases hverifying
  · have hstays := stays_of_quiet hquiet hattempt .waitpid trivial
    simp only [Attempt.step, hpc, hexited, if_true] at hstays
    cases hstays

/-- However the attempts interleave, each returns `True` only on PAM's word in its own
child, and returns it unless its own `os.read` fails.  Left to themselves they come to
rest, and all of them end but those whose child is still in PAM, and those whose child
was killed, or could not even write its zero, while a child of another attempt that was
born with their write end is still in PAM. -/
theorem verdicts_apart (hrun : Run step .start events world) :
    (∀ i attempt, world.attempts[i]? = some attempt → ∀ result, attempt.pc = .done result →
      (result = [1] → .verdict true true ∈ actions events i) ∧
      (.verdict true true ∈ actions events i →
        result = [1] ∨ .readFails ∈ actions events i)) ∧
    (∃ own finish, Run step world own finish ∧ (∀ event ∈ own, Own event) ∧
      Quiet step Own finish) ∧
    ∀ own finish, Run step world own finish → (∀ event ∈ own, Own event) →
      own.length ≤ world.measure ∧ (Quiet step Own finish →
        ∀ i attempt, finish.attempts[i]? = some attempt →
          attempt.pc.Ended ∨ attempt.child = .verifying ∨ attempt.child = .exited ∧
            (.kill ∈ actions (events ++ own) i ∨ .fallback false ∈ actions (events ++ own) i) ∧
            ∃ (k : Nat) (other : Attempt), k ≠ i ∧ finish.attempts[k]? = some other ∧
              other.child = .verifying ∧ i ∈ other.holds) := by
  refine ⟨fun i attempt hattempt result hpc => ?_, lowers.exists_quiet world,
    fun own finish hrest hown => ⟨?_, fun hquiet i attempt hattempt => ?_⟩⟩
  · obtain ⟨hyes, hheard, -⟩ := ((accounted hrun).recorded i attempt hattempt).heard result
      (by rw [hpc]; rfl)
    exact ⟨hyes, hheard⟩
  · have hlength := lowers.length_le hrest hown
    omega
  · rw [or_iff_not_imp_left]
    exact kept_of_quiet hquiet hattempt
      ((accounted (hrun.append hrest)).recorded i attempt hattempt)

def coupledEvents : List Event :=
  [.begin, .begin, .act 0 (.pipe true), .act 1 (.pipe true), .act 1 (.fork true),
    .act 0 (.fork true), .act 0 .close, .act 1 .close, .act 0 .kill]

def coupled : World :=
  ⟨[⟨.reading, .exited, [], [0, 1]⟩, ⟨.reading, .verifying, [], [0, 1]⟩], []⟩

theorem quiet_coupled : Quiet step Own coupled := by
  intro event hown
  cases event with
  | exec n => rfl
  | act i action =>
      match i with
      | 0 | 1 =>
          cases action with
          | pipe | fork | close | fallback | exit | read | waitpid => rfl
          | verdict | raise | kill | readFails => cases hown
      | _ + 2 => rfl
  | begin | spawn => cases hown

/-- The first attempt, whose child is dead, waits for the second user's verification. -/
theorem verdicts_apart_coupled :
    Run step .start coupledEvents coupled ∧ Quiet step Own coupled ∧
      ∃ (k : Nat) (other : Attempt), k ≠ 0 ∧ coupled.attempts[k]? = some other ∧
        other.child = .verifying ∧ 0 ∈ other.holds := by
  have hrun : Run step .start coupledEvents coupled := run_of_exec rfl
  refine ⟨hrun, quiet_coupled, ?_⟩
  have hkept := ((verdicts_apart hrun).2.2 [] coupled (.nil _)
    (fun _ h => absurd h List.not_mem_nil)).2 quiet_coupled 0 _ rfl
  rcases hkept with hended | hverifying | ⟨-, -, hother⟩
  · exact hended.elim
  · cases hverifying
  · exact hother

end Vnctlsd.Bridge.Verification
