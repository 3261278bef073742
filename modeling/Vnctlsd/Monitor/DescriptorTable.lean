import Vnctlsd.Monitor.Answering

/-! The monitor's descriptor table across a SPAWN_REQ.  The pseudo-terminal is opened
before the fork and given away behind it, and one handler catches whatever raises in
between. -/
namespace Vnctlsd.Monitor
open Vnctlsd.Python Ipc

variable {ρ : Type}

/-- How the block from `openpty` to the last `close` ends in the parent. -/
inductive BlockEnd (host : Host ρ) (seq : PyVal) : Pass ρ → Prop where
  | noPty {e : PyExc} : host.pty.openpty = .error e → BlockEnd host seq (.raised e)
  | noFork {master slave : ρ} {e : PyExc} : host.pty.openpty = .ok (master, slave) →
      host.pty.fork = .error e → BlockEnd host seq ⟨[], [master, slave], false, .error e⟩
  | slaveKept {master slave : ρ} {pid : Int} {e : PyExc} :
      host.pty.openpty = .ok (master, slave) → host.pty.fork = .ok pid →
      host.pty.close slave = .error e → BlockEnd host seq ⟨[], [master], false, .error e⟩
  | notSent {master slave : ρ} {pid : Int} {e : PyExc} :
      host.pty.openpty = .ok (master, slave) → host.pty.fork = .ok pid →
      host.pty.close slave = .ok () → host.send (spawnOk pid seq) [master] = .error e →
      BlockEnd host seq ⟨[], [master], false, .error e⟩
  | granted {master slave : ρ} {pid : Int} :
      host.pty.openpty = .ok (master, slave) → host.pty.fork = .ok pid →
      host.pty.close slave = .ok () → host.send (spawnOk pid seq) [master] = .ok () →
      BlockEnd host seq
        ⟨[(.dict (spawnOk pid seq), [master])], [], false, host.pty.close master⟩

theorem blockEnd (host : Host ρ) (seq : PyVal) : BlockEnd host seq (host.spawnChild seq) := by
  unfold Host.spawnChild
  cases hopen : host.pty.openpty with
  | error e => exact .noPty hopen
  | ok pair =>
      cases hfork : host.pty.fork with
      | error e => exact .noFork hopen hfork
      | ok pid =>
          dsimp only
          cases hclose : host.pty.close pair.2 with
          | error e => exact .slaveKept hopen hfork hclose
          | ok _ =>
              dsimp only
              cases hsend : host.send (spawnOk pid seq) [pair.1] with
              | error e => exact .notSent hopen hfork hclose hsend
              | ok _ => exact .granted hopen hfork hclose hsend

section

variable [DecidableEq ρ]

/-- The table after the block, call by call. -/
def Host.tableAfter (host : Host ρ) (seq : PyVal) (table : List ρ) : List ρ :=
  match host.pty.openpty with
  | .error _ => table
  | .ok (master, slave) =>
      match host.pty.fork with
      | .error _ => master :: slave :: table
      | .ok pid =>
          let table := (master :: slave :: table).erase slave
          match host.pty.close slave with
          | .error _ => table
          | .ok _ =>
              match host.send (spawnOk pid seq) [master] with
              | .error _ => table
              | .ok _ => table.erase master

def tableAfterSpawn (policy : Policy) (host : Host ρ) (seq : PyVal)
    (username consoleName : String) (table : List ρ) : List ρ :=
  match spawnPlan policy username consoleName with
  | .ok (.run _) => host.tableAfter seq table
  | .ok (.refuse _) | .error _ => table

/-- The system hands out descriptors that are not in use. -/
def Host.OpensFresh (host : Host ρ) (table : List ρ) : Prop :=
  ∀ master slave, host.pty.openpty = .ok (master, slave) →
    master ≠ slave ∧ master ∉ table ∧ slave ∉ table

/-- What the pass holds on to is what the table has gained. -/
theorem tableAfter_eq {host : Host ρ} {table : List ρ} (hfresh : host.OpensFresh table)
    (seq : PyVal) : host.tableAfter seq table = (host.spawnChild seq).held ++ table := by
  have herase : ∀ {master slave : ρ}, host.pty.openpty = .ok (master, slave) →
      (master :: slave :: table).erase slave = master :: table := by
    intro master slave hopen
    have hne := (hfresh master slave hopen).1
    rw [List.erase_cons_tail (by simpa using hne), List.erase_cons_head]
  generalize hpass : host.spawnChild seq = pass
  cases hpass ▸ blockEnd host seq with
  | noPty hopen => simp [Host.tableAfter, hopen, Pass.raised]
  | noFork hopen hfork => simp [Host.tableAfter, hopen, hfork]
  | slaveKept hopen hfork hclose => simp [Host.tableAfter, hopen, hfork, hclose, herase hopen]
  | notSent hopen hfork hclose hsend =>
      simp [Host.tableAfter, hopen, hfork, hclose, hsend, herase hopen]
  | granted hopen hfork hclose hsend =>
      simp [Host.tableAfter, hopen, hfork, hclose, hsend, herase hopen]

end

/-- Once there is a pseudo-terminal, the fork, the close of the slave and the reply all
get through. -/
def Host.Completes (host : Host ρ) (seq : PyVal) : Prop :=
  ∀ master slave, host.pty.openpty = .ok (master, slave) → ∃ pid, host.pty.fork = .ok pid ∧
    host.pty.close slave = .ok () ∧ host.Sends (spawnOk pid seq) [master]

theorem held_eq_nil_iff (host : Host ρ) (seq : PyVal) :
    (host.spawnChild seq).held = [] ↔ host.Completes seq := by
  unfold Host.Completes Host.Sends
  generalize hpass : host.spawnChild seq = pass
  cases hpass ▸ blockEnd host seq with
  | noPty hopen => simp [hopen, Pass.raised]
  | noFork hopen hfork => simp [hopen, hfork]
  | slaveKept hopen hfork hclose => simp [hopen, hfork, hclose]
  | notSent hopen hfork hclose hsend => simp [hopen, hfork, hclose, hsend]
  | granted hopen hfork hclose hsend => simp [hopen, hfork, hclose, hsend]

theorem opened_of_held {host : Host ρ} {seq : PyVal} {fd : ρ}
    (h : fd ∈ (host.spawnChild seq).held) :
    ∃ master slave, host.pty.openpty = .ok (master, slave) ∧ (fd = master ∨ fd = slave) := by
  generalize hpass : host.spawnChild seq = pass at h
  cases hpass ▸ blockEnd host seq with
  | noPty hopen => simp [Pass.raised] at h
  | noFork hopen hfork => exact ⟨_, _, hopen, by simpa using h⟩
  | slaveKept hopen hfork hclose => exact ⟨_, _, hopen, .inl (List.mem_singleton.mp h)⟩
  | notSent hopen hfork hclose hsend => exact ⟨_, _, hopen, .inl (List.mem_singleton.mp h)⟩
  | granted hopen hfork hclose hsend => cases h

theorem mem_tableAfter_iff [DecidableEq ρ] {host : Host ρ} {table : List ρ}
    (hfresh : host.OpensFresh table) (seq : PyVal) :
    (∀ fd, fd ∈ host.tableAfter seq table ↔ fd ∈ table) ↔ host.Completes seq := by
  rw [← held_eq_nil_iff, tableAfter_eq hfresh]
  constructor
  · intro h
    rw [List.eq_nil_iff_forall_not_mem]
    intro fd hfd
    obtain ⟨master, slave, hopen, hwhich⟩ := opened_of_held hfd
    obtain ⟨-, hmaster, hslave⟩ := hfresh master slave hopen
    have hold := (h fd).mp (List.mem_append_left _ hfd)
    rcases hwhich with rfl | rfl
    · exact hmaster hold
    · exact hslave hold
  · intro h fd
    rw [h, List.nil_append]

/-- The reply says that the console is there. -/
def SaysOk (msg : PyVal) : Prop := msg.get "ok" .none = .ok (.bool true)

theorem not_saysOk_spawnError (error : String) (seq : PyVal) :
    ¬ SaysOk (.dict (spawnError error seq)) := by
  intro h
  cases h

/-- What goes out in a pass: reports of errors, behind one reply with the master at most. -/
inductive Outgoing (host : Host ρ) (seq : PyVal) : List (PyVal × List ρ) → Prop where
  | nil : Outgoing host seq []
  | granted {master slave : ρ} (pid : Int) : host.pty.openpty = .ok (master, slave) →
      Outgoing host seq [(.dict (spawnOk pid seq), [master])]
  | report {sent : List (PyVal × List ρ)} (error : String) : Outgoing host seq sent →
      Outgoing host seq (sent ++ [(.dict (spawnError error seq), [])])

section

variable {host : Host ρ} {seq : PyVal} {sent : List (PyVal × List ρ)}

theorem Outgoing.reply (h : Outgoing host seq sent) (error : String) :
    Outgoing host seq (sent ++ (host.reply (spawnError error seq) []).sent) := by
  unfold Host.reply
  cases host.send (spawnError error seq) [] with
  | ok _ => exact h.report error
  | error e => rwa [show (Pass.raised e : Pass ρ).sent = [] from rfl, List.append_nil]

theorem Outgoing.recover {pass : Pass ρ} (h : Outgoing host seq pass.sent) :
    Outgoing host seq (host.recover seq pass).sent := by
  unfold Host.recover
  cases pass.result with
  | ok _ => exact h
  | error e => exact h.reply e.text

theorem outgoing_start (host : Host ρ) (seq : PyVal) (cmd : List String) :
    Outgoing host seq (host.start seq cmd).sent := by
  have hblock : Outgoing host seq (host.spawnChild seq).sent := by
    generalize hpass : host.spawnChild seq = pass
    cases hpass ▸ blockEnd host seq with
    | granted hopen => exact .granted _ hopen
    | noPty | noFork | slaveKept | notSent => exact .nil
  unfold Host.start
  cases host.childRun cmd with
  | ok _ => exact hblock.recover
  | error e => exact hblock.recover.reply e.text

theorem outgoing_spawnPass (policy : Policy) (host : Host ρ) (seq : PyVal)
    (username consoleName : String) :
    Outgoing host seq (spawnPass policy host seq username consoleName).sent := by
  unfold spawnPass
  cases spawnPlan policy username consoleName with
  | error e => exact .nil
  | ok plan =>
      cases plan with
      | refuse refusal => exact Outgoing.nil.reply _
      | run cmd => exact outgoing_start host seq cmd

theorem Outgoing.master (h : Outgoing host seq sent) :
    (∃ entry ∈ sent, SaysOk entry.1) →
      ∃ master slave, host.pty.openpty = .ok (master, slave) ∧
        sent.flatMap Prod.snd = [master] := by
  induction h with
  | nil => simp
  | granted pid hopen => exact fun _ => ⟨_, _, hopen, rfl⟩
  | @report sent error _ ih =>
      rintro ⟨entry, hentry, hok⟩
      rcases List.mem_append.mp hentry with hearlier | hlast
      · rw [List.flatMap_append, List.flatMap_singleton, List.append_nil]
        exact ih ⟨entry, hearlier, hok⟩
      · rw [List.mem_singleton.mp hlast] at hok
        exact absurd hok (not_saysOk_spawnError error seq)

end

/-- The monitor has the descriptors it had, and where a reply says ok the peer was sent the
master and no other descriptor. -/
structure Balanced [DecidableEq ρ] (policy : Policy) (host : Host ρ) (seq : PyVal)
    (username consoleName : String) (table : List ρ) : Prop where
  table : ∀ fd, fd ∈ tableAfterSpawn policy host seq username consoleName table ↔ fd ∈ table
  granted : ∀ result, pass policy host ((Request.spawn username consoleName).message seq) =
    some result → (∃ entry ∈ result.sent, SaysOk entry.1) →
    ∃ master slave, host.pty.openpty = .ok (master, slave) ∧
      result.sent.flatMap Prod.snd = [master]

/-- A SPAWN_REQ leaves the table balanced exactly when it does not come to the block or the
block completes. -/
theorem balanced_iff [DecidableEq ρ] {host : Host ρ} {table : List ρ}
    (hfresh : host.OpensFresh table) (policy : Policy) (seq : PyVal)
    (username consoleName : String) :
    Balanced policy host seq username consoleName table ↔
      ∀ cmd, spawnPlan policy username consoleName = .ok (.run cmd) → host.Completes seq := by
  have hgranted : ∀ result,
      pass policy host ((Request.spawn username consoleName).message seq) = some result →
      (∃ entry ∈ result.sent, SaysOk entry.1) →
      ∃ master slave, host.pty.openpty = .ok (master, slave) ∧
        result.sent.flatMap Prod.snd = [master] := by
    intro result hpass
    rw [pass_message] at hpass
    cases hpass
    exact (outgoing_spawnPass policy host seq username consoleName).master
  have htable : (∀ fd, fd ∈ tableAfterSpawn policy host seq username consoleName table ↔
      fd ∈ table) ↔
      ∀ cmd, spawnPlan policy username consoleName = .ok (.run cmd) → host.Completes seq := by
    unfold tableAfterSpawn
    cases spawnPlan policy username consoleName with
    | error e => simp
    | ok plan =>
        cases plan with
        | refuse refusal => simp
        | run cmd => simp [mem_tableAfter_iff hfresh]
  exact ⟨fun h => htable.mp h.table, fun h => ⟨htable.mpr h, hgranted⟩⟩

def openLab : PyVal := .ofFields [("consoles", .ofFields [
  ("lab01", .ofFields [("cmd", .str "virsh console lab01"), ("rw", .list [.str "lab-a"])])])]

theorem balanced_iff_lab : Balanced ⟨.plain, openLab, labUsers⟩ calmHost (.int 1) "student01"
    "lab01" [0, 1, 2] :=
  (balanced_iff (by rintro _ _ ⟨⟩; decide) ⟨.plain, openLab, labUsers⟩ (.int 1) "student01"
    "lab01").mpr (by rintro _ - _ _ ⟨⟩; exact ⟨4242, rfl, rfl, rfl⟩)

/-- No process can be made: both ends of the pseudo-terminal stay open. -/
def crowdedHost : Host Nat :=
  { calmHost with pty := { calmHost.pty with fork := raise .osError "[Errno 11] EAGAIN" } }

theorem failedFork_leaks : ¬ Balanced ⟨.plain, openLab, labUsers⟩ crowdedHost (.int 1)
    "student01" "lab01" [0, 1, 2] := by
  intro h
  exact absurd ((h.table 7).mp (by decide)) (by decide)

end Vnctlsd.Monitor
