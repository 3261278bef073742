import Mathlib.Data.List.Basic
import Vnctlsd.Library.Transition

/-! Words that end with a stop symbol, appended to one file in pieces.  A word that is
begun while others are under way is finished, or given up, before they go on: when the
file is the words that were finished, one after another, and in which order they are. -/
namespace Vnctlsd.Library.NestedWrites
open Transition

variable {α : Type} {stop : α}

structure Word (stop : α) where
  text : List α
  clean : stop ∉ text

def Word.symbols (word : Word stop) : List α := word.text ++ [stop]

/-- A word under way.  `inside` are the numbers of those that it was begun inside of. -/
structure Task (stop : α) where
  number : Nat
  inside : List Nat
  word : Word stop
  written : Nat
  pending : written ≤ word.text.length

/-- What is in the file of a word under way. -/
def Task.part (task : Task stop) : List α := task.word.text.take task.written

/-- `stack` has the innermost word in front, `done` the finished words in their order. -/
structure World (stop : α) where
  next : Nat
  stack : List (Task stop)
  file : List α
  done : List (Task stop)

def World.start : World stop := ⟨0, [], [], []⟩

/-- A word may depend on its number. -/
inductive Event (stop : α) where
  | begin (word : Nat → Word stop)
  | write (count : Nat)
  | fail

def write (world : World stop) (task : Task stop) (rest : List (Task stop)) (count : Nat) :
    Option (World stop) :=
  let file := world.file ++ (task.word.symbols.drop task.written).take count
  if h : task.written + count ≤ task.word.text.length then
    some { world with stack := ⟨task.number, task.inside, task.word, _, h⟩ :: rest, file }
  else if task.written + count = task.word.symbols.length then
    some { world with stack := rest, file, done := world.done ++ [task] }
  else none

def step (world : World stop) : Event stop → Option (World stop)
  | .begin word => some { world with
      next := world.next + 1
      stack := ⟨world.next, world.stack.map Task.number, word world.next, 0, Nat.zero_le _⟩ ::
        world.stack }
  | .write count =>
      match world.stack with
      | [] => none
      | task :: rest => write world task rest count
  | .fail =>
      match world.stack with
      | [] => none
      | _ :: rest => some { world with stack := rest }

/-- The words of finished tasks, one after another. -/
def words (done : List (Task stop)) : List α := done.flatMap fun task => task.word.symbols

/-- Nothing is written over an unfinished word, and none is given up that has been begun
in the file. -/
def Clean (world : World stop) : Event stop → Prop
  | .begin _ => True
  | .write count => 0 < count → ∀ task ∈ world.stack.tail, task.written = 0
  | .fail => ∀ task ∈ world.stack.head?, task.written = 0

theorem write_cases {world next : World stop} {task : Task stop} {rest : List (Task stop)}
    {count : Nat} (h : write world task rest count = some next) :
    (∃ hpending, next = { world with
        stack := ⟨task.number, task.inside, task.word, task.written + count, hpending⟩ :: rest
        file := world.file ++ (task.word.text.drop task.written).take count }) ∨
      (task.written + count = task.word.text.length + 1 ∧ next = { world with
        stack := rest
        file := world.file ++ task.word.text.drop task.written ++ [stop]
        done := world.done ++ [task] }) := by
  have hdrop : task.word.symbols.drop task.written =
      task.word.text.drop task.written ++ [stop] := List.drop_append_of_le_length task.pending
  unfold write at h
  split at h
  · rename_i hpending
    refine .inl ⟨hpending, ?_⟩
    rw [hdrop, List.take_append_of_le_length (by rw [List.length_drop]; omega)] at h
    exact (Option.some.inj h).symm
  · split at h
    · rename_i hwhole
      rw [Word.symbols, List.length_append, List.length_singleton] at hwhole
      refine .inr ⟨hwhole, ?_⟩
      have hlength : (task.word.text.drop task.written ++ [stop]).length ≤ count := by
        have hpending := task.pending
        rw [List.length_append, List.length_drop, List.length_singleton]
        omega
      rw [hdrop, List.take_of_length_le hlength, ← List.append_assoc] at h
      exact (Option.some.inj h).symm
    · cases h

theorem notMem_part (task : Task stop) : stop ∉ task.part :=
  fun h => task.word.clean (List.mem_of_mem_take h)

theorem length_part (task : Task stop) : task.part.length = task.written := by
  rw [Task.part, List.length_take, Nat.min_eq_left task.pending]

theorem part_eq_nil {task : Task stop} (h : task.written = 0) : task.part = [] := by
  rw [Task.part, h, List.take_zero]

theorem parts_eq_nil {stack : List (Task stop)} (h : ∀ task ∈ stack, task.written = 0) :
    stack.flatMap Task.part = [] :=
  List.flatMap_eq_nil_iff.mpr fun task htask => part_eq_nil (h task htask)

/-- The finished words stand in the file, and the part of at most one more. -/
structure Whole (world : World stop) : Prop where
  file : world.file = words world.done ++ world.stack.flatMap Task.part
  single : world.stack.Pairwise fun task other => task.written = 0 ∨ other.written = 0

/-- Something stands in the file where a word that finishes next cannot begin. -/
structure Torn (world : World stop) : Prop where
  torn : ∃ part, world.file = words world.done ++ part ∧ part ≠ [] ∧ stop ∉ part ∧
    ∀ task ∈ world.stack, task.written < part.length

/-- Where a finished word ought to stand, the file has its first stop symbol too late. -/
structure Lost (world : World stop) : Prop where
  late : ∃ front task rest long back, world.done = front ++ task :: rest ∧
    world.file = words front ++ long ++ stop :: back ∧
    stop ∉ long ∧ task.word.text.length < long.length

theorem words_snoc (done : List (Task stop)) (task : Task stop) :
    words (done ++ [task]) = words done ++ task.word.symbols := by
  simp [words]

theorem words_append_cons (front rest : List (Task stop)) (task : Task stop) :
    words (front ++ task :: rest) = words front ++ (task.word.symbols ++ words rest) := by
  simp [words]

theorem whole_step {world next : World stop} {event : Event stop} (h : Whole world)
    (hclean : Clean world event) (hstep : step world event = some next) : Whole next := by
  cases event with
  | begin word =>
      cases hstep
      refine ⟨?_, List.pairwise_cons.mpr ⟨fun other _ => .inl rfl, h.single⟩⟩
      rw [List.flatMap_cons, part_eq_nil rfl, List.nil_append]
      exact h.file
  | fail =>
      simp only [step] at hstep
      split at hstep
      · cases hstep
      · rename_i task rest hstack
        cases hstep
        have hzero : task.written = 0 := hclean task (by rw [hstack]; rfl)
        obtain ⟨hfile, hsingle⟩ := h
        rw [hstack] at hfile hsingle
        rw [List.flatMap_cons, part_eq_nil hzero, List.nil_append] at hfile
        exact ⟨hfile, (List.pairwise_cons.mp hsingle).2⟩
  | write count =>
      simp only [step] at hstep
      split at hstep
      · cases hstep
      · rename_i task rest hstack
        obtain ⟨hfile, hsingle⟩ := h
        rw [hstack] at hfile hsingle
        obtain ⟨hothers, hrest⟩ := List.pairwise_cons.mp hsingle
        rcases Nat.eq_zero_or_pos count with rfl | hpos
        · rcases write_cases hstep with ⟨hpending, rfl⟩ | ⟨hwhole, -⟩
          · refine ⟨?_, List.pairwise_cons.mpr ⟨hothers, hrest⟩⟩
            rw [List.take_zero, List.append_nil]
            exact hfile
          · have hpending := task.pending
            omega
        · have hzero : ∀ other ∈ rest, other.written = 0 := by
            intro other hother
            exact hclean hpos other (by rw [hstack]; exact hother)
          rw [List.flatMap_cons, parts_eq_nil hzero, List.append_nil] at hfile
          rcases write_cases hstep with ⟨hpending, rfl⟩ | ⟨-, rfl⟩
          · refine ⟨?_,
              List.pairwise_cons.mpr ⟨fun other hother => .inr (hzero other hother), hrest⟩⟩
            rw [List.flatMap_cons, parts_eq_nil hzero, List.append_nil, hfile, List.append_assoc,
              Task.part, Task.part, ← List.take_add]
          · refine ⟨?_, hrest⟩
            rw [parts_eq_nil hzero, List.append_nil, words_snoc, hfile, Word.symbols, Task.part]
            simp only [List.append_assoc]
            rw [← List.append_assoc (task.word.text.take _), List.take_append_drop]

/-- Of the words under way only the one that has been begun is in the file. -/
theorem parts_of_begun {stack : List (Task stop)} {begun : Task stop}
    (hsingle : stack.Pairwise fun task other => task.written = 0 ∨ other.written = 0)
    (hmem : begun ∈ stack) (hbegun : begun.written ≠ 0) :
    stack.flatMap Task.part = begun.part ∧ ∀ task ∈ stack, task.written ≤ begun.written := by
  induction stack with
  | nil => exact absurd hmem List.not_mem_nil
  | cons first rest ih =>
      obtain ⟨hfirst, hrest⟩ := List.pairwise_cons.mp hsingle
      rcases List.mem_cons.mp hmem with rfl | hmem
      · have hzero : ∀ task ∈ rest, task.written = 0 := fun task htask =>
          (hfirst task htask).resolve_left hbegun
        rw [List.flatMap_cons, parts_eq_nil hzero, List.append_nil]
        refine ⟨rfl, List.forall_mem_cons.mpr ⟨Nat.le_refl _, fun task htask => ?_⟩⟩
        rw [hzero task htask]
        exact Nat.zero_le _
      · have hzero : first.written = 0 := (hfirst begun hmem).resolve_right hbegun
        obtain ⟨hparts, hle⟩ := ih hrest hmem
        rw [List.flatMap_cons, part_eq_nil hzero, List.nil_append]
        exact ⟨hparts, List.forall_mem_cons.mpr ⟨by omega, hle⟩⟩

/-- A write behind the part of another word. -/
theorem spoiled_of_write {world next : World stop} {task : Task stop} {rest : List (Task stop)}
    {count : Nat} {part : List α} (hfile : world.file = words world.done ++ part)
    (hnil : part ≠ []) (hstop : stop ∉ part) (htask : task.written < part.length)
    (hrest : ∀ other ∈ rest, other.written < part.length + count)
    (hwrite : write world task rest count = some next) : Torn next ∨ Lost next := by
  rcases write_cases hwrite with ⟨hpending, rfl⟩ | ⟨hwhole, rfl⟩
  · let chunk := (task.word.text.drop task.written).take count
    have hchunk : chunk.length = count := by
      rw [List.length_take, List.length_drop]
      omega
    have hlength : (part ++ chunk).length = part.length + count := by
      rw [List.length_append, hchunk]
    refine .inl ⟨part ++ chunk, ?_, List.append_ne_nil_of_left_ne_nil hnil _, ?_, ?_⟩
    · show world.file ++ chunk = _
      rw [hfile, List.append_assoc]
    · intro hmem
      rcases List.mem_append.mp hmem with hmem | hmem
      · exact hstop hmem
      · exact task.word.clean (List.mem_of_mem_drop (List.mem_of_mem_take hmem))
    · rw [hlength]
      exact List.forall_mem_cons.mpr ⟨Nat.add_lt_add_right htask count, hrest⟩
  · refine .inr ⟨world.done, task, [], part ++ task.word.text.drop task.written, [], rfl,
      ?_, ?_, ?_⟩
    · show world.file ++ _ ++ [stop] = _
      rw [hfile]
      simp only [List.append_assoc]
    · intro hmem
      rcases List.mem_append.mp hmem with hmem | hmem
      · exact hstop hmem
      · exact task.word.clean (List.mem_of_mem_drop hmem)
    · rw [List.length_append, List.length_drop]
      omega

theorem spoiled_of_unclean {world next : World stop} {event : Event stop} (h : Whole world)
    (hclean : ¬ Clean world event) (hstep : step world event = some next) :
    Torn next ∨ Lost next := by
  cases event with
  | begin word => exact absurd trivial hclean
  | fail =>
      simp only [step] at hstep
      split at hstep
      · cases hstep
      · rename_i task rest hstack
        cases hstep
        have hbegun : task.written ≠ 0 := by
          intro hzero
          apply hclean
          intro other hother
          rw [hstack] at hother
          cases hother
          exact hzero
        obtain ⟨hfile, hsingle⟩ := h
        rw [hstack] at hfile hsingle
        have hzero : ∀ other ∈ rest, other.written = 0 := fun other hother =>
          ((List.pairwise_cons.mp hsingle).1 other hother).resolve_left hbegun
        rw [List.flatMap_cons, parts_eq_nil hzero, List.append_nil] at hfile
        have hlength := length_part task
        refine .inl ⟨task.part, hfile, ?_, notMem_part task, fun other hother => ?_⟩
        · intro hnil
          rw [hnil, List.length_nil] at hlength
          exact hbegun hlength.symm
        · rw [hzero other hother]
          omega
  | write count =>
      simp only [Clean, Classical.not_imp, not_forall] at hclean
      obtain ⟨hpos, below, hbelow, hbegun⟩ := hclean
      simp only [step] at hstep
      split at hstep
      · cases hstep
      · rename_i task rest hstack
        obtain ⟨hfile, hsingle⟩ := h
        rw [hstack] at hfile hsingle
        rw [hstack, List.tail_cons] at hbelow
        obtain ⟨hothers, hrest⟩ := List.pairwise_cons.mp hsingle
        have hnew : task.written = 0 := (hothers below hbelow).resolve_right hbegun
        obtain ⟨hparts, hle⟩ := parts_of_begun hrest hbelow hbegun
        rw [List.flatMap_cons, part_eq_nil hnew, List.nil_append, hparts] at hfile
        have hlength := length_part below
        have hleft : below.part ≠ [] := by
          apply List.ne_nil_of_length_pos
          omega
        refine spoiled_of_write hfile hleft (notMem_part below) (by omega) (fun other hother => ?_)
          hstep
        have hother := hle other hother
        omega

theorem spoiled_step {world next : World stop} {event : Event stop}
    (h : Torn world ∨ Lost world) (hstep : step world event = some next) :
    Torn next ∨ Lost next := by
  have hgrows : ∃ more back, next.done = world.done ++ more ∧ next.file = world.file ++ back := by
    cases event with
    | begin word =>
        cases hstep
        exact ⟨[], [], (List.append_nil _).symm, (List.append_nil _).symm⟩
    | fail =>
        simp only [step] at hstep
        split at hstep
        · cases hstep
        · cases hstep
          exact ⟨[], [], (List.append_nil _).symm, (List.append_nil _).symm⟩
    | write count =>
        simp only [step] at hstep
        split at hstep
        · cases hstep
        · rcases write_cases hstep with ⟨hpending, rfl⟩ | ⟨-, rfl⟩
          · exact ⟨[], _, (List.append_nil _).symm, rfl⟩
          · exact ⟨_, _, rfl, List.append_assoc ..⟩
  rcases h with ⟨part, hfile, hnil, hstop, hshort⟩ | hlost
  · cases event with
    | begin word =>
        cases hstep
        refine .inl ⟨part, hfile, hnil, hstop, List.forall_mem_cons.mpr ⟨?_, hshort⟩⟩
        exact List.length_pos_iff.mpr hnil
    | fail =>
        simp only [step] at hstep
        split at hstep
        · cases hstep
        · rename_i hstack
          cases hstep
          rw [hstack] at hshort
          exact .inl ⟨part, hfile, hnil, hstop, (List.forall_mem_cons.mp hshort).2⟩
    | write count =>
        simp only [step] at hstep
        split at hstep
        · cases hstep
        · rename_i task rest hstack
          rw [hstack] at hshort
          obtain ⟨htask, hrest⟩ := List.forall_mem_cons.mp hshort
          exact spoiled_of_write hfile hnil hstop htask
            (fun other hother => Nat.lt_add_right count (hrest other hother)) hstep
  · obtain ⟨front, task, rest, long, back, hdone, hfile, hstop, hlong⟩ := hlost
    obtain ⟨more, added, hmore, hadded⟩ := hgrows
    refine .inr ⟨front, task, rest ++ more, long, back ++ added, ?_, ?_, hstop, hlong⟩
    · rw [hmore, hdone, List.append_assoc, List.cons_append]
    · rw [hadded, hfile, List.append_assoc, List.cons_append]

/-- The first stop symbol ends the same text. -/
theorem eq_of_append_stop {text text' back back' : List α} (htext : stop ∉ text)
    (htext' : stop ∉ text') (h : text ++ stop :: back = text' ++ stop :: back') : text = text' := by
  induction text generalizing text' with
  | nil =>
      cases text' with
      | nil => rfl
      | cons a rest =>
          obtain ⟨rfl, -⟩ := List.cons.inj h
          exact absurd (List.mem_cons_self ..) htext'
  | cons a rest ih =>
      cases text' with
      | nil =>
          obtain ⟨rfl, -⟩ := List.cons.inj h
          exact absurd (List.mem_cons_self ..) htext
      | cons b rest' =>
          obtain ⟨rfl, hrest⟩ := List.cons.inj h
          rw [ih (fun hmem => htext (List.mem_cons_of_mem _ hmem))
            (fun hmem => htext' (List.mem_cons_of_mem _ hmem)) hrest]

/-- The file is spoiled for good: its words cannot be read off any more. -/
theorem file_ne_of_spoiled {world : World stop} (h : Torn world ∨ Lost world) :
    world.file ≠ words world.done := by
  intro heq
  rcases h with ⟨part, hfile, hnil, -, -⟩ |
    ⟨front, task, rest, long, back, hdone, hfile, hstop, hlong⟩
  · rw [hfile] at heq
    exact hnil (List.self_eq_append_right.mp heq.symm)
  · rw [hfile, hdone, words_append_cons, List.append_assoc, List.append_cancel_left_eq,
      Word.symbols, List.append_assoc, List.singleton_append] at heq
    rw [eq_of_append_stop hstop task.word.clean heq] at hlong
    exact Nat.lt_irrefl _ hlong

theorem guarded_or_spoiled {world finish : World stop} {events : List (Event stop)}
    (hrun : Run step world events finish) (h : Whole world) :
    (GuardedRun step Clean world events finish ∧ Whole finish) ∨ Torn finish ∨ Lost finish := by
  induction hrun with
  | nil world => exact .inl ⟨.nil world, h⟩
  | @cons world next finish event events hstep hrest ih =>
      by_cases hclean : Clean world event
      · rcases ih (whole_step h hclean hstep) with ⟨hguarded, hfinish⟩ | hspoiled
        · exact .inl ⟨.cons hclean hstep hguarded, hfinish⟩
        · exact .inr hspoiled
      · have hspoiled := spoiled_of_unclean h hclean hstep
        refine .inr (@Run.invariant _ _ _ (fun world => Torn world ∨ Lost world) ?_ _ _ _ hrest
          hspoiled)
        exact fun world event next hworld hnext => spoiled_step hworld hnext

/-- Once no word is under way the file is the finished words exactly if every step was
clean. -/
theorem file_eq_words_iff {finish : World stop} {events : List (Event stop)}
    (hrun : Run step .start events finish) (hidle : finish.stack = []) :
    finish.file = words finish.done ↔ GuardedRun step Clean .start events finish := by
  have hstart : Whole (.start : World stop) := ⟨rfl, .nil⟩
  constructor
  · intro hfile
    rcases guarded_or_spoiled hrun hstart with ⟨hguarded, -⟩ | hspoiled
    · exact hguarded
    · exact absurd hfile (file_ne_of_spoiled hspoiled)
  · intro hguarded
    have hfinish : Whole finish := hguarded.invariant
      (fun world event next hworld hclean hstep => whole_step hworld hclean hstep) hstart
    rw [hfinish.file, hidle, List.flatMap_nil, List.append_nil]

/-- A number, and those it was begun inside of. -/
def Task.head (task : Task stop) : Nat × List Nat := (task.number, task.inside)

/-- The first has the larger number exactly if it was begun inside of the second. -/
def Nested (head later : Nat × List Nat) : Prop := later.1 < head.1 ↔ later.1 ∈ head.2

/-- The numbers given out so far, in the order in which their words are finished. -/
structure Ordered (next : Nat) (heads : List (Nat × List Nat)) : Prop where
  nested : heads.Pairwise Nested
  inside : ∀ head ∈ heads, ∀ number ∈ head.2, number < head.1
  fresh : ∀ head ∈ heads, head.1 < next

theorem Ordered.sublist {next : Nat} {heads fewer : List (Nat × List Nat)} (h : Ordered next heads)
    (hsub : fewer.Sublist heads) : Ordered next fewer where
  nested := h.nested.sublist hsub
  inside head hhead := h.inside head (hsub.mem hhead)
  fresh head hhead := h.fresh head (hsub.mem hhead)

theorem Ordered.begin {next : Nat} {done under : List (Nat × List Nat)}
    (h : Ordered next (done ++ under)) :
    Ordered (next + 1) (done ++ (next, under.map Prod.fst) :: under) := by
  obtain ⟨hdone, hunder, hcross⟩ := List.pairwise_append.mp h.nested
  refine ⟨?_, fun head hhead number hnumber => ?_, fun head hhead => ?_⟩
  · refine List.pairwise_append.mpr ⟨hdone, List.pairwise_cons.mpr ⟨?_, hunder⟩, ?_⟩
    · intro later hlater
      exact iff_of_true (h.fresh later (List.mem_append_right _ hlater))
        (List.mem_map_of_mem hlater)
    · intro head hhead
      refine List.forall_mem_cons.mpr ⟨?_, hcross head hhead⟩
      have hmem := List.mem_append_left under hhead
      have hle := Nat.le_of_lt (h.fresh head hmem)
      exact iff_of_false (Nat.not_lt.mpr hle) fun hin =>
        Nat.not_lt.mpr hle (h.inside head hmem next hin)
  · rcases List.mem_append.mp hhead with hhead | hhead
    · exact h.inside head (List.mem_append_left _ hhead) number hnumber
    · rcases List.mem_cons.mp hhead with rfl | hhead
      · obtain ⟨other, hother, rfl⟩ := List.mem_map.mp hnumber
        exact h.fresh other (List.mem_append_right _ hother)
      · exact h.inside head (List.mem_append_right _ hhead) number hnumber
  · rcases List.mem_append.mp hhead with hhead | hhead
    · exact Nat.lt_succ_of_lt (h.fresh head (List.mem_append_left _ hhead))
    · rcases List.mem_cons.mp hhead with rfl | hhead
      · exact Nat.lt_succ_self _
      · exact Nat.lt_succ_of_lt (h.fresh head (List.mem_append_right _ hhead))

def World.heads (world : World stop) : List (Nat × List Nat) :=
  world.done.map Task.head ++ world.stack.map Task.head

theorem ordered_step {world next : World stop} {event : Event stop}
    (h : Ordered world.next world.heads) (hstep : step world event = some next) :
    Ordered next.next next.heads := by
  cases event with
  | begin word =>
      cases hstep
      have hbegin := h.begin
      rw [List.map_map] at hbegin
      exact hbegin
  | fail =>
      simp only [step] at hstep
      split at hstep
      · cases hstep
      · rename_i task rest hstack
        cases hstep
        rw [World.heads, hstack, List.map_cons] at h
        exact h.sublist ((List.sublist_cons_self ..).append_left _)
  | write count =>
      simp only [step] at hstep
      split at hstep
      · cases hstep
      · rename_i task rest hstack
        rw [World.heads, hstack, List.map_cons] at h
        rcases write_cases hstep with ⟨hpending, rfl⟩ | ⟨-, rfl⟩
        · exact h
        · show Ordered world.next ((world.done ++ [task]).map Task.head ++ rest.map Task.head)
          rw [List.map_append, List.append_assoc]
          exact h

/-- The finished words are in the order of their numbers, but for those that were begun
inside of others and so come before them. -/
theorem done_nested {finish : World stop} {events : List (Event stop)}
    (hrun : Run step .start events finish) :
    finish.done.Pairwise fun task later => later.number < task.number ↔
      later.number ∈ task.inside := by
  have hstart : Ordered (.start : World stop).next (World.start : World stop).heads :=
    ⟨.nil, fun _ h => absurd h List.not_mem_nil, fun _ h => absurd h List.not_mem_nil⟩
  have hfinish : Ordered finish.next finish.heads := 
    @Run.invariant _ _ _ (fun world => Ordered world.next world.heads)
      (fun world event next hworld hstep => ordered_step hworld hstep) _ _ _ hrun hstart
  exact List.pairwise_map.mp (List.pairwise_append.mp hfinish.nested).1

end Vnctlsd.Library.NestedWrites
