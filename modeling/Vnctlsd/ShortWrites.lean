import Vnctlsd.Bridge.SshRelay
import Vnctlsd.Helper.Relay
import Vnctlsd.Hub.ConsoleHub
import Vnctlsd.Logger

/-! The four places that move byte streams, under writes that take less than they are
offered.  The log and the helper write the rest; the hub and the ssh bridge drop it. -/
namespace Vnctlsd.ShortWrites
open Vnctlsd.Library Vnctlsd.Library.Transfer Vnctlsd.Library.Transition
open Vnctlsd.ConsoleHub (Hub)
open Vnctlsd.Logger (LogCall writeAll)
open Vnctlsd.Helper (Relay Buffer Revents Block bridge relayStep)

abbrev ConsoleCall := Call Nat Empty

/-- `ConsoleHub.write_input`: one `os.write`, whose count is not looked at. -/
def writeInput (hub : Hub) (data : List UInt8) (result : Result Nat) : Hub × ConsoleCall :=
  (match result with
    | .returned _ => hub
    | .interrupted | .failed => { hub with done := true },
    .write hub.fd data result)

def writeInputs : Hub → List (List UInt8 × Result Nat) → Hub × List ConsoleCall
  | hub, [] => (hub, [])
  | hub, (data, result) :: input =>
      let first := writeInput hub data result
      let others := writeInputs first.1 input
      (others.1, first.2 :: others.2)

/-- `_write_all` on one record after another, each with results for its calls. -/
def writeRecords (fd : Nat) (records : List (List UInt8 × List (Result Nat))) : List LogCall :=
  records.flatMap fun record => (writeAll fd record.1 0 record.2).2

/-- An `os.write` that raises is the step `writeFailed` of the hub. -/
theorem step_writeFailed (hub : Hub) (data : List UInt8) (result : Result Nat) :
    (writeInput hub data result).1 = hub ∨
      ConsoleHub.step hub .writeFailed = some (writeInput hub data result).1 := by
  cases result with
  | returned count => exact .inl rfl
  | interrupted | failed => exact .inr rfl

theorem writeInput_fd (hub : Hub) (data : List UInt8) (result : Result Nat) :
    (writeInput hub data result).1.fd = hub.fd := by
  cases result <;> rfl

/-- Every chunk is offered to the console once, and whole. -/
theorem offered_writeInputs (hub : Hub) (input : List (List UInt8 × Result Nat)) :
    offered hub.fd (writeInputs hub input).2 = (input.map Prod.fst).flatten := by
  induction input generalizing hub with
  | nil => rfl
  | cons chunk input ih =>
      have hrest := ih (writeInput hub chunk.1 chunk.2).1
      rw [writeInput_fd] at hrest
      have hoffered : (writeInput hub chunk.1 chunk.2).2.offered hub.fd = chunk.1 := if_pos rfl
      rw [List.map_cons, List.flatten_cons, ← hrest, writeInputs, offered, List.flatMap_cons,
        hoffered]
      rfl

/-- Legal writes, enough of them for every record, leave nothing out. -/
theorem delivered_writeRecords {fd : Nat} {records : List (List UInt8 × List (Result Nat))}
    (hlegal : ∀ call ∈ writeRecords fd records, call.Legal)
    (hresults : ∀ record ∈ records, record.1.length ≤ record.2.length) :
    delivered fd (writeRecords fd records) = (records.map Prod.fst).flatten := by
  induction records with
  | nil => rfl
  | cons record records ih =>
      obtain ⟨hrecord, hrecords⟩ := List.forall_mem_cons.mp hresults
      rw [writeRecords, List.flatMap_cons] at hlegal
      obtain ⟨hfirst, hothers⟩ := List.forall_mem_append.mp hlegal
      obtain ⟨rest, hdata, hreturned⟩ := Logger.writeAll_delivers fd record.1 0 record.2
      rw [hreturned (Logger.writeAll_returns hfirst (by rwa [Nat.zero_add])), List.append_nil,
        List.drop_zero] at hdata
      rw [List.map_cons, List.flatten_cons, ← ih hothers hrecords, hdata, writeRecords,
        List.flatMap_cons, delivered, List.flatMap_append]
      rfl

/-- A run of each of the four, in which every write takes at least one byte and no more
than it is offered.  The runs of the two loops end where nothing is being written. -/
structure Traffic where
  hub : Hub
  input : List (List UInt8 × Result Nat)
  legalInput : ∀ call ∈ (writeInputs hub input).2, call.Legal
  ssh : List SshBridge.RelayCall
  sshEnd : SshBridge.Relay
  sshRun : Run SshBridge.step .select ssh sshEnd
  sshRests : ∀ data stdinReadable, sshEnd ≠ .writeStdout data stdinReadable
  legalSsh : ∀ call ∈ ssh, call.Legal
  logFd : Nat
  records : List (List UInt8 × List (Result Nat))
  enough : ∀ record ∈ records, record.1.length ≤ record.2.length
  legalRecords : ∀ call ∈ writeRecords logFd records, call.Legal
  buf : Buffer
  revents : Revents × Revents
  helper : List Helper.RelayCall
  helperEnd : Relay
  helperRun : Run relayStep (bridge buf revents) helper helperEnd
  helperRests : ∀ block w r, helperEnd.pc ≠ .write block w r
  legalHelper : ∀ call ∈ helper, call.Legal

namespace Traffic

/-- What arrives is in each case exactly what was there to pass on. -/
def LosesNothing (traffic : Traffic) : Prop :=
  delivered traffic.hub.fd (writeInputs traffic.hub traffic.input).2 =
      (traffic.input.map Prod.fst).flatten ∧
    delivered .stdout traffic.ssh = received .sock traffic.ssh ∧
    delivered traffic.logFd (writeRecords traffic.logFd traffic.records) =
      (traffic.records.map Prod.fst).flatten ∧
    delivered .stdout traffic.helper = received .sock traffic.helper ∧
    delivered .sock traffic.helper = received .stdin traffic.helper

/-- The hub's writes to the console and the ssh bridge's to stdout return the length
they were offered. -/
def NoneShort (traffic : Traffic) : Prop :=
  (∀ call ∈ (writeInputs traffic.hub traffic.input).2, call.Whole traffic.hub.fd) ∧
    ∀ call ∈ traffic.ssh, call.Whole .stdout

variable (traffic : Traffic)

theorem input_exact_iff : delivered traffic.hub.fd (writeInputs traffic.hub traffic.input).2 =
      (traffic.input.map Prod.fst).flatten ↔
    ∀ call ∈ (writeInputs traffic.hub traffic.input).2, call.Whole traffic.hub.fd := by
  rw [← offered_writeInputs, delivered_eq_offered_iff traffic.legalInput]

theorem ssh_exact_iff : delivered .stdout traffic.ssh = received .sock traffic.ssh ↔
    ∀ call ∈ traffic.ssh, call.Whole .stdout := by
  have hpending : traffic.sshEnd.pending = [] := by
    cases hend : traffic.sshEnd with
    | writeStdout data stdinReadable => exact absurd hend (traffic.sshRests data stdinReadable)
    | select | readSock | readStdin | sendall | shutdown | close | left => rfl
  rw [SshBridge.run_offers traffic.sshRun, hpending, List.append_nil,
    delivered_eq_offered_iff traffic.legalSsh]

theorem helper_exact (block : Block) :
    delivered block.sink traffic.helper = received block.source traffic.helper := by
  have hpending : traffic.helperEnd.pending block = [] := by
    cases hpc : traffic.helperEnd.pc with
    | write block' w r => exact absurd hpc (traffic.helperRests block' w r)
    | poll | read => simp only [Relay.pending, hpc]
    | shutdown exit | close exit | returned exit =>
        have hexit : traffic.helperEnd.exit = some exit := by simp only [Relay.exit, hpc]
        exact Helper.pending_of_exit hexit
          (Helper.written_of_legal traffic.helperRun traffic.legalHelper hexit) block
  have howed := Helper.relay_owed traffic.helperRun block
  rw [hpending] at howed
  exact howed.complete

/-- Nothing is lost if and only if no write of the hub or of the ssh bridge is short. -/
theorem losesNothing_iff : traffic.LosesNothing ↔ traffic.NoneShort := by
  constructor
  · rintro ⟨hinput, hssh, -⟩
    exact ⟨traffic.input_exact_iff.mp hinput, traffic.ssh_exact_iff.mp hssh⟩
  · rintro ⟨hinput, hssh⟩
    exact ⟨traffic.input_exact_iff.mpr hinput, traffic.ssh_exact_iff.mpr hssh,
      delivered_writeRecords traffic.legalRecords traffic.enough,
      traffic.helper_exact .sock, traffic.helper_exact .stdin⟩

end Traffic

/-- The same two bytes for each of the four, and of every two bytes offered one is
taken. -/
def halved : Traffic where
  hub := ConsoleHub.create "web" 7 7
  input := [([1, 2], .returned 1)]
  legalInput := by decide
  ssh := [.other (.select (.returned (false, true))),
    .read .sock SshBridge.bufsize (.returned [1, 2]), .write .stdout [1, 2] (.returned 1)]
  sshEnd := .select
  sshRun := run_of_exec (by decide)
  sshRests := SshBridge.select_ne_writeStdout
  legalSsh := by decide
  logFd := 3
  records := [([1, 2], [.returned 1, .returned 1])]
  enough := by decide
  legalRecords := by decide
  buf := Helper.zeroed
  revents := (0, 0)
  helper := [.other (.poll (.returned (0, Helper.pollin))),
    .read .sock Helper.bufsize (.returned [1, 2]), .write .stdout [1, 2] (.returned 1),
    .write .stdout [2] (.returned 1)]
  helperEnd := ⟨Helper.zeroed.fill [1, 2] (by decide), (0, Helper.pollin), .poll⟩
  helperRun := run_of_exec rfl
  helperRests := fun _ _ _ h => by cases h
  legalHelper := by decide

theorem halved_loses_half : ¬halved.LosesNothing ∧
    delivered halved.hub.fd (writeInputs halved.hub halved.input).2 = [1] ∧
    delivered .stdout halved.ssh = [1] ∧ received .sock halved.ssh = [1, 2] ∧
    delivered halved.logFd (writeRecords halved.logFd halved.records) = [1, 2] ∧
    delivered .stdout halved.helper = [1, 2] := by
  refine ⟨fun ⟨hinput, _⟩ => ?_, by decide, by decide, by decide, by decide, by decide⟩
  exact absurd hinput (by decide)

end Vnctlsd.ShortWrites
