import Vnctlsd.Library.NestedWrites
import Vnctlsd.Logger

/-! The log file of one process.  `emit` runs under the handler's lock, which is
reentrant: the main thread's signal handlers log in the middle of its own records. -/
namespace Vnctlsd.LogFile
open Vnctlsd.Library Json Transition NestedWrites Logger

def newline : UInt8 := 0x0a

inductive Thread where
  | main
  | other (id : Nat)
  deriving DecidableEq

/-- `emit` takes the lock and a number; `write` is what `os.write` returns, nothing where
it is interrupted; `raised` is an exception from the formatting or a write, which
`handleError` takes. -/
inductive Event where
  | emit (thread : Thread) (record : LogRecord)
  | write (count : Nat)
  | raised

theorem shorten_isLine (msg : Text) (limits : List Nat) (trimmed : Fields) :
    ∃ fields, shorten msg limits trimmed = encodeLine fields := by
  induction limits generalizing trimmed with
  | nil => exact ⟨_, rfl⟩
  | cons limit limits ih =>
      rw [shorten]
      split
      · dsimp only
        split
        · exact ⟨_, rfl⟩
        · exact ih _
      · exact ih trimmed

/-- However much of the record is left out, it is one line. -/
theorem encodeEntry_isLine (entry : Entry) : ∃ fields, encodeEntry entry = encodeLine fields := by
  unfold encodeEntry
  dsimp only
  split
  · exact ⟨_, rfl⟩
  · split
    · split
      · exact ⟨_, rfl⟩
      · exact shorten_isLine ..
    · exact shorten_isLine ..

def lineOf (component : Text) (record : LogRecord) (seq : Nat) : Word newline where
  text := (encodeEntry (entryOf component seq record)).dropLast
  clean := by
    obtain ⟨fields, hfields⟩ := encodeEntry_isLine (entryOf component seq record)
    rw [hfields, encodeLine_eq, List.dropLast_concat]
    exact newline_not_mem (Python.Json.printable_dumps _)

theorem symbols_lineOf (component : Text) (record : LogRecord) (seq : Nat) :
    (lineOf component record seq).symbols = encodeEntry (entryOf component seq record) := by
  obtain ⟨fields, hfields⟩ := encodeEntry_isLine (entryOf component seq record)
  show (encodeEntry (entryOf component seq record)).dropLast ++ [newline] = _
  rw [hfields, encodeLine_eq, List.dropLast_concat]
  rfl

/-- `records` are all that were ever logged, in the order of their numbers; `owner` has
the lock while one is under way. -/
structure World where
  owner : Thread
  log : NestedWrites.World newline
  records : List (Thread × LogRecord)

def World.start : World := ⟨.main, .start, []⟩

def core (component : Text) : Event → NestedWrites.Event newline
  | .emit _ record => .begin (lineOf component record)
  | .write count => .write count
  | .raised => .fail

/-- Another thread waits for the lock; the main thread, which has it, takes it again in a
signal handler. -/
def step (component : Text) (world : World) (event : Event) : Option World :=
  match event with
  | .emit thread record =>
      if world.log.stack.isEmpty ∨ (thread = .main ∧ world.owner = .main) then
        (NestedWrites.step world.log (core component event)).map fun log =>
          ⟨thread, log, world.records ++ [(thread, record)]⟩
      else none
  | .write _ | .raised =>
      (NestedWrites.step world.log (core component event)).map fun log => { world with log }

/-- The numbers of the records that were written to their end, in the order in which they
were. -/
def World.completed (world : World) : List Nat := world.log.done.map Task.number

def World.line (component : Text) (world : World) (seq : Nat) : List UInt8 :=
  match world.records[seq]? with
  | some (_, record) => encodeEntry (entryOf component seq record)
  | none => []

/-- No record is written to while another one stands half written, and none is given up
half written. -/
def Clean (component : Text) (world : World) (event : Event) : Prop :=
  NestedWrites.Clean world.log (core component event)

variable {component : Text} {world next finish : World} {event : Event} {events : List Event}

theorem step_log (h : step component world event = some next) :
    NestedWrites.step world.log (core component event) = some next.log := by
  cases event with
  | emit thread record =>
      simp only [step] at h
      split at h
      · obtain ⟨log, hlog, rfl⟩ := Option.map_eq_some_iff.mp h
        exact hlog
      · cases h
  | write count =>
      obtain ⟨log, hlog, rfl⟩ := Option.map_eq_some_iff.mp h
      exact hlog
  | raised =>
      obtain ⟨log, hlog, rfl⟩ := Option.map_eq_some_iff.mp h
      exact hlog

theorem run_log (hrun : Run (step component) world events finish) :
    Run NestedWrites.step world.log (events.map (core component)) finish.log := by
  induction hrun with
  | nil world => exact .nil _
  | cons hstep _ ih => exact .cons (step_log hstep) ih

theorem guarded_log_iff (hrun : Run (step component) world events finish) :
    GuardedRun NestedWrites.step NestedWrites.Clean world.log (events.map (core component))
      finish.log ↔ GuardedRun (step component) (Clean component) world events finish := by
  induction hrun with
  | nil world => exact iff_of_true (.nil _) (.nil _)
  | cons hstep _ ih =>
      constructor
      · rintro (_ | ⟨hclean, hlog, hrest⟩)
        rw [step_log hstep] at hlog
        cases hlog
        exact .cons hclean hstep (ih.mp hrest)
      · rintro (_ | ⟨hclean, hstep', hrest⟩)
        rw [hstep] at hstep'
        cases hstep'
        exact .cons hclean (step_log hstep) (ih.mpr hrest)

/-- The word is the record's line, and whatever it was begun inside of is the main
thread's, as it is itself. -/
def Logged (component : Text) (records : List (Thread × LogRecord)) (task : Task newline) : Prop :=
  ∃ thread record, records[task.number]? = some (thread, record) ∧
    task.word = lineOf component record task.number ∧
    ∀ number ∈ task.inside, thread = .main ∧ ∃ other, records[number]? = some (.main, other)

structure Kept (component : Text) (world : World) : Prop where
  next : world.records.length = world.log.next
  logged : ∀ task ∈ world.log.done ++ world.log.stack, Logged component world.records task
  owned : ∀ task ∈ world.log.stack, ∃ record,
    world.records[task.number]? = some (world.owner, record)

theorem getElem?_snoc {records : List (Thread × LogRecord)} {seq : Nat}
    {found : Thread × LogRecord} (h : records[seq]? = some found) (new : Thread × LogRecord) :
    (records ++ [new])[seq]? = some found := by
  obtain ⟨hlt, -⟩ := List.getElem?_eq_some_iff.mp h
  rw [List.getElem?_append_left hlt, h]

theorem Logged.snoc {records : List (Thread × LogRecord)} {task : Task newline}
    (h : Logged component records task) (new : Thread × LogRecord) :
    Logged component (records ++ [new]) task := by
  obtain ⟨thread, record, hrecord, hword, hinside⟩ := h
  refine ⟨thread, record, getElem?_snoc hrecord new, hword, fun number hnumber => ?_⟩
  obtain ⟨hmain, other, hother⟩ := hinside number hnumber
  exact ⟨hmain, other, getElem?_snoc hother new⟩

/-- A task loses its place, or goes on, or is done: the record is the same. -/
theorem kept_of_log {log : NestedWrites.World newline} (h : Kept component world)
    (hnext : log.next = world.log.next)
    (hall : ∀ task ∈ log.done ++ log.stack, ∃ before ∈ world.log.done ++ world.log.stack,
      task.number = before.number ∧ task.inside = before.inside ∧ task.word = before.word)
    (hstack : ∀ task ∈ log.stack, ∃ before ∈ world.log.stack, task.number = before.number) :
    Kept component { world with log } where
  next := h.next.trans hnext.symm
  logged task htask := by
    obtain ⟨before, hbefore, hnumber, hinside, hword⟩ := hall task htask
    have hlogged := h.logged before hbefore
    unfold Logged at hlogged ⊢
    rwa [hnumber, hinside, hword]
  owned task htask := by
    obtain ⟨before, hbefore, hnumber⟩ := hstack task htask
    rw [hnumber]
    exact h.owned before hbefore

theorem kept_step (h : Kept component world) (hstep : step component world event = some next) :
    Kept component next := by
  cases event with
  | emit thread record =>
      simp only [step] at hstep
      split at hstep
      · rename_i hlock
        cases hstep
        have hnew : (world.records ++ [(thread, record)])[world.log.next]? =
            some (thread, record) := by
          rw [← h.next, List.getElem?_concat_length]
        have hmine : ∀ task ∈ world.log.stack, world.owner = thread ∧ thread = .main := by
          intro task htask
          rcases hlock with hempty | ⟨hmain, howner⟩
          · rw [List.isEmpty_iff.mp hempty] at htask
            exact absurd htask List.not_mem_nil
          · exact ⟨howner.trans hmain.symm, hmain⟩
        refine ⟨?_, fun task htask => ?_, List.forall_mem_cons.mpr ⟨⟨record, hnew⟩, ?_⟩⟩
        · rw [List.length_append, h.next]
          rfl
        · rcases List.mem_append.mp htask with htask | htask
          · exact (h.logged task (List.mem_append_left _ htask)).snoc _
          · rcases List.mem_cons.mp htask with rfl | htask
            · refine ⟨thread, record, hnew, rfl, fun number hnumber => ?_⟩
              obtain ⟨task, hmem, rfl⟩ := List.mem_map.mp hnumber
              obtain ⟨howner, hmain⟩ := hmine task hmem
              obtain ⟨other, hother⟩ := h.owned task hmem
              rw [howner, hmain] at hother
              exact ⟨hmain, other, getElem?_snoc hother _⟩
            · exact (h.logged task (List.mem_append_right _ htask)).snoc _
        · intro task htask
          obtain ⟨other, hother⟩ := h.owned task htask
          rw [(hmine task htask).1] at hother
          exact ⟨other, getElem?_snoc hother _⟩
      · cases hstep
  | raised =>
      obtain ⟨log, hlog, rfl⟩ := Option.map_eq_some_iff.mp hstep
      simp only [core, NestedWrites.step] at hlog
      split at hlog
      · cases hlog
      · rename_i task rest hstack
        cases hlog
        refine kept_of_log h rfl (fun other hother => ?_) fun other hother => ?_
        · refine ⟨other, ?_, rfl, rfl, rfl⟩
          rw [hstack]
          rcases List.mem_append.mp hother with hother | hother
          · exact List.mem_append_left _ hother
          · exact List.mem_append_right _ (List.mem_cons_of_mem _ hother)
        · exact ⟨other, hstack ▸ List.mem_cons_of_mem _ hother, rfl⟩
  | write count =>
      obtain ⟨log, hlog, rfl⟩ := Option.map_eq_some_iff.mp hstep
      simp only [core, NestedWrites.step] at hlog
      split at hlog
      · cases hlog
      · rename_i task rest hstack
        have hrest : ∀ other ∈ rest, other ∈ world.log.stack := fun other hother =>
          hstack ▸ List.mem_cons_of_mem _ hother
        have htop : task ∈ world.log.stack := hstack ▸ List.mem_cons_self ..
        rcases write_cases hlog with ⟨hpending, rfl⟩ | ⟨-, rfl⟩
        · refine kept_of_log h rfl (fun other hother => ?_) fun other hother => ?_
          · rcases List.mem_append.mp hother with hother | hother
            · exact ⟨other, List.mem_append_left _ hother, rfl, rfl, rfl⟩
            · rcases List.mem_cons.mp hother with rfl | hother
              · exact ⟨task, List.mem_append_right _ htop, rfl, rfl, rfl⟩
              · exact ⟨other, List.mem_append_right _ (hrest other hother), rfl, rfl, rfl⟩
          · rcases List.mem_cons.mp hother with rfl | hother
            · exact ⟨task, htop, rfl⟩
            · exact ⟨other, hrest other hother, rfl⟩
        · refine kept_of_log h rfl (fun other hother => ?_)
            fun other hother => ⟨other, hrest other hother, rfl⟩
          refine ⟨other, ?_, rfl, rfl, rfl⟩
          rw [List.append_assoc] at hother
          rw [hstack]
          exact hother

theorem kept (hrun : Run (step component) .start events finish) : Kept component finish :=
  hrun.invariant (fun _ _ _ hworld hstep => kept_step hworld hstep)
    ⟨rfl, fun _ h => absurd h List.not_mem_nil, fun _ h => absurd h List.not_mem_nil⟩

/-- A record written to its end is its whole line. -/
theorem words_done (h : Kept component finish) :
    words finish.log.done = finish.completed.flatMap (finish.line component) := by
  rw [words, World.completed, List.flatMap_map]
  apply List.flatMap_congr
  intro task htask
  obtain ⟨thread, record, hrecord, hword, -⟩ := h.logged task (List.mem_append_left _ htask)
  rw [hword, symbols_lineOf, World.line, hrecord]

/-- With no record under way the log file is the lines of the records that were written to
their end, one after another, exactly if no record was written to while another one stood
half written and none was given up half written. -/
theorem readable_iff (hrun : Run (step component) .start events finish)
    (hidle : finish.log.stack = []) :
    finish.log.file = finish.completed.flatMap (finish.line component) ↔
      GuardedRun (step component) (Clean component) .start events finish := by
  rw [← words_done (kept hrun), ← guarded_log_iff hrun]
  exact file_eq_words_iff (run_log hrun) hidle

/-- The lines stand in the order of their numbers, but that a record which a signal handler
of the main thread logged in the middle of one of the main thread's comes before it. -/
theorem in_order (hrun : Run (step component) .start events finish) :
    finish.log.done.Pairwise fun task later =>
      (later.number < task.number ↔ later.number ∈ task.inside) ∧
      (later.number < task.number → ∀ seq ∈ [task.number, later.number], ∃ record,
        finish.records[seq]? = some (.main, record)) := by
  have hnested := done_nested (run_log hrun)
  refine List.Pairwise.imp_of_mem (fun {task later} htask _ hboth => ⟨hboth, fun hlt => ?_⟩) hnested
  obtain ⟨thread, record, hrecord, -, hinside⟩ :=
    (kept hrun).logged task (List.mem_append_left _ htask)
  obtain ⟨rfl, hother⟩ := hinside later.number (hboth.mp hlt)
  intro seq hseq
  rcases List.mem_cons.mp hseq with rfl | hseq
  · exact ⟨record, hrecord⟩
  · rw [List.mem_singleton.mp hseq]
    exact hother

theorem step_write_part {task : Task newline} {rest : List (Task newline)} {count : Nat}
    (hstack : world.log.stack = task :: rest)
    (hpending : task.written + count ≤ task.word.text.length) :
    step component world (.write count) = some { world with log := { world.log with
      stack := ⟨task.number, task.inside, task.word, _, hpending⟩ :: rest
      file := world.log.file ++ (task.word.symbols.drop task.written).take count } } := by
  simp only [step, core, NestedWrites.step, hstack, NestedWrites.write, dif_pos hpending,
    Option.map_some]

theorem step_write_end {task : Task newline} {rest : List (Task newline)} {count : Nat}
    (hstack : world.log.stack = task :: rest)
    (hend : task.written + count = task.word.symbols.length) :
    step component world (.write count) = some { world with log := { world.log with
      stack := rest
      file := world.log.file ++ (task.word.symbols.drop task.written).take count
      done := world.log.done ++ [task] } } := by
  have hover : ¬ task.written + count ≤ task.word.text.length := by
    rw [Word.symbols, List.length_append, List.length_singleton] at hend
    omega
  simp only [step, core, NestedWrites.step, hstack, NestedWrites.write, dif_neg hover, if_pos hend,
    Option.map_some]

def length (component : Text) (record : LogRecord) (seq : Nat) : Nat :=
  (lineOf component record seq).symbols.length

theorem length_eq (component : Text) (record : LogRecord) (seq : Nat) :
    length component record seq = (lineOf component record seq).text.length + 1 := by
  rw [length, Word.symbols, List.length_append, List.length_singleton]

/-- A signal between two writes of a record: its handler's record stands in the middle of
the line. -/
theorem torn_run (component : Text) (record : LogRecord)
    (hlong : 0 + 1 ≤ (lineOf component record 0).text.length) :
    let events := [.emit .main record, .write 1, .emit .main record,
      .write (length component record 1), .write (length component record 0 - 1)]
    ∃ finish, Run (step component) .start events finish ∧ finish.log.stack = [] ∧
      ¬ GuardedRun (step component) (Clean component) .start events finish := by
  have hend : 1 + (length component record 0 - 1) = (lineOf component record 0).symbols.length := by
    have hlength := length_eq component record 0
    rw [← length, hlength]
    omega
  refine ⟨_, .cons rfl (.cons (step_write_part rfl hlong) (.cons rfl
    (.cons (step_write_end rfl (Nat.zero_add _)) (.cons (step_write_end rfl hend) (.nil _))))),
    rfl, ?_⟩
  rintro (_ | ⟨-, hfirst, hguarded⟩)
  cases hfirst
  rcases hguarded with _ | ⟨-, hsecond, hguarded⟩
  rw [step_write_part rfl hlong] at hsecond
  cases hsecond
  rcases hguarded with _ | ⟨-, hthird, hguarded⟩
  cases hthird
  rcases hguarded with _ | ⟨hclean, -, -⟩
  have hpos : 0 < length component record 1 := by
    rw [length_eq]
    exact Nat.succ_pos _
  exact absurd (hclean hpos _ (List.mem_singleton_self _)) Nat.one_ne_zero

/-- The same signal before the first write: the handler's record comes first. -/
theorem nested_run (component : Text) (record : LogRecord) :
    ∃ finish, Run (step component) .start [.emit .main record, .emit .main record,
      .write (length component record 1), .write (length component record 0)] finish ∧
      finish.completed = [1, 0] :=
  ⟨_, .cons rfl (.cons rfl (.cons (step_write_end rfl (Nat.zero_add _))
    (.cons (step_write_end rfl (Nat.zero_add _)) (.nil _)))), rfl⟩

abbrev monitor : Text := ofString "monitor"

theorem readable_iff_torn : ∃ events finish, Run (step monitor) .start events finish ∧
    finish.log.file ≠ finish.completed.flatMap (finish.line monitor) := by
  obtain ⟨finish, hrun, hidle, htorn⟩ := torn_run monitor ready (by decide +kernel)
  exact ⟨_, finish, hrun, mt (readable_iff hrun hidle).mp htorn⟩

theorem in_order_nested : ∃ events finish, Run (step monitor) .start events finish ∧
    finish.completed = [1, 0] ∧ finish.log.done.Pairwise fun task later =>
      (later.number < task.number ↔ later.number ∈ task.inside) ∧
      (later.number < task.number → ∀ seq ∈ [task.number, later.number], ∃ record,
        finish.records[seq]? = some (.main, record)) := by
  obtain ⟨finish, hrun, hcompleted⟩ := nested_run monitor ready
  exact ⟨_, finish, hrun, hcompleted, in_order hrun⟩

end Vnctlsd.LogFile
