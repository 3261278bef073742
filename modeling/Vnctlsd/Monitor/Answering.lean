import Vnctlsd.Ipc.Requests
import Vnctlsd.Monitor.Spawn

/-! One pass of the monitor's loop over one request: what goes out on the rpc
socket, whether the loop goes on, and which processes are in it afterwards. -/
namespace Vnctlsd.Monitor
open Vnctlsd.Library.ByteStream Vnctlsd.Python Ipc

/-- How the calls around the fork end.  `child` is the child's own run: it ends in
`execvp` or `_exit`, or the report of its error raises and it leaves the block. -/
structure Pty (ρ : Type) where
  openpty : Py (ρ × ρ)
  fork : Py Int
  child : List String → Py Unit
  close : ρ → Py Unit

structure Host (ρ : Type) where
  checkOutput : CheckOutput
  getpwuid : Int → Option String
  pty : Pty ρ
  codec : Codec
  write : List (Cell ρ) → Py Unit

/-- `held` are the descriptors the pass opened and the monitor still has. -/
structure Pass (ρ : Type) where
  sent : List (PyVal × List ρ)
  held : List ρ
  escaped : Bool
  result : Py Unit

variable {ρ : Type}

def Host.send (host : Host ρ) (msg : List (Key × PyVal)) (fds : List ρ) : Py Unit := do
  let cells ← ipcSend host.codec (.dict msg) fds
  host.write cells

def Pass.raised (e : PyExc) : Pass ρ := ⟨[], [], false, .error e⟩

def Host.reply (host : Host ρ) (msg : List (Key × PyVal)) (fds : List ρ) : Pass ρ :=
  match host.send msg fds with
  | .ok _ => ⟨[(.dict msg, fds)], [], false, .ok ()⟩
  | .error e => .raised e

def commandPass (policy : Policy) (host : Host ρ) (seq : PyVal) (action consoleName : String) :
    Pass ρ :=
  match commandText policy host.checkOutput action consoleName with
  | .ok rendered => host.reply (cmdResponse rendered seq) []
  | .error e => .raised e

/-- The block from `openpty` to the last `close`, in the parent.  A descriptor is
gone after `close`, even where that raises. -/
def Host.spawnChild (host : Host ρ) (seq : PyVal) : Pass ρ :=
  match host.pty.openpty with
  | .error e => .raised e
  | .ok (master, slave) =>
      match host.pty.fork with
      | .error e => { (Pass.raised e : Pass ρ) with held := [master, slave] }
      | .ok pid =>
          match host.pty.close slave with
          | .error e => { (Pass.raised e : Pass ρ) with held := [master] }
          | .ok _ =>
              match host.send (spawnOk pid seq) [master] with
              | .error e => { (Pass.raised e : Pass ρ) with held := [master] }
              | .ok _ => ⟨[(.dict (spawnOk pid seq), [master])], [], false,
                  host.pty.close master⟩

/-- `except Exception`: the error goes out if it can, and the loop goes on. -/
def Host.recover (host : Host ρ) (seq : PyVal) (pass : Pass ρ) : Pass ρ :=
  match pass.result with
  | .ok _ => pass
  | .error e => { pass with
      sent := pass.sent ++ (host.reply (spawnError e.text seq) []).sent, result := .ok () }

/-- There is a child only behind a successful `fork`. -/
def Host.childRun (host : Host ρ) (cmd : List String) : Py Unit :=
  match host.pty.openpty, host.pty.fork with
  | .ok _, .ok _ => host.pty.child cmd
  | _, _ => .ok ()

/-- A child that leaves the block runs the same handler as the parent, on the
same socket, and stays in the loop. -/
def Host.start (host : Host ρ) (seq : PyVal) (cmd : List String) : Pass ρ :=
  let parent := host.recover seq (host.spawnChild seq)
  match host.childRun cmd with
  | .ok _ => parent
  | .error e => { parent with
      sent := parent.sent ++ (host.recover seq (.raised e)).sent, escaped := true }

def spawnPass (policy : Policy) (host : Host ρ) (seq : PyVal) (username consoleName : String) :
    Pass ρ :=
  match spawnPlan policy username consoleName with
  | .ok (.refuse refusal) =>
      host.reply (spawnError (refusal.text policy.rt consoleName) seq) []
  | .ok (.run cmd) => host.start seq cmd
  | .error e => .raised e

def answer (policy : Policy) (host : Host ρ) (seq : PyVal) : Request → Pass ρ
  | .runAction action consoleName => commandPass policy host seq action consoleName
  | .spawn username consoleName => spawnPass policy host seq username consoleName
  | .lookupUid uid => host.reply (peercredResponse (host.getpwuid uid) seq) []

/-- The request in a message; `none` for any other message and for one whose
fields have other types. -/
def readRequest (msg : PyVal) : Py (Option Request) := do
  let mtype ← msg.get "type" .none
  if mtype.eqStr "CMD_REQ" then
    match ← msg.get "action" (.str ""), ← msg.get "console" (.str "") with
    | .str action, .str consoleName => pure (some (.runAction action consoleName))
    | _, _ => pure none
  else if mtype.eqStr "SPAWN_REQ" then
    match ← msg.get "username" (.str ""), ← msg.get "console" (.str "") with
    | .str username, .str consoleName => pure (some (.spawn username consoleName))
    | _, _ => pure none
  else if mtype.eqStr "PEERCRED_LOOKUP_REQ" then
    match ← msg.get "uid" .none with
    | .int uid => pure (some (.lookupUid uid))
    | _ => pure none
  else pure none

def pass (policy : Policy) (host : Host ρ) (msg : PyVal) : Option (Pass ρ) :=
  match readRequest msg, msg.get "seq" .none with
  | .ok (some request), .ok seq => some (answer policy host seq request)
  | _, _ => none

theorem pass_message (policy : Policy) (host : Host ρ) (request : Request) (seq : PyVal) :
    pass policy host (request.message seq) = some (answer policy host seq request) := by
  cases request <;> rfl

/-- One message of the right type and number went out, the loop goes on, and
nobody else is in it. -/
structure Answered (request : Request) (seq : PyVal) (pass : Pass ρ) : Prop where
  goesOn : pass.result = .ok ()
  alone : pass.escaped = false
  once : ∃ msg fds, pass.sent = [(msg, fds)] ∧ Answers request seq msg

def Host.Sends (host : Host ρ) (msg : List (Key × PyVal)) (fds : List ρ) : Prop :=
  host.send msg fds = .ok ()

theorem not_answered_raised (request : Request) (seq : PyVal) (e : PyExc) :
    ¬ Answered request seq (Pass.raised e : Pass ρ) := fun h => nomatch h.goesOn

theorem answered_reply_iff (host : Host ρ) {request : Request} {seq : PyVal}
    {msg : List (Key × PyVal)} (fds : List ρ) (hmsg : Answers request seq (.dict msg)) :
    Answered request seq (host.reply msg fds) ↔ host.Sends msg fds := by
  cases hsend : host.send msg fds with
  | ok _ =>
      have hreply : host.reply msg fds = ⟨[(.dict msg, fds)], [], false, .ok ()⟩ := by
        simp only [Host.reply, hsend]
      rw [hreply]
      exact ⟨fun _ => hsend, fun _ => ⟨rfl, rfl, .dict msg, fds, rfl, hmsg⟩⟩
  | error e =>
      have hreply : host.reply msg fds = .raised e := by simp only [Host.reply, hsend]
      rw [hreply]
      refine ⟨fun h => absurd h (not_answered_raised request seq e), fun h => ?_⟩
      rw [Host.Sends, hsend] at h
      cases h

theorem answered_commandPass_iff (policy : Policy) (host : Host ρ) (seq : PyVal)
    (action consoleName : String) :
    Answered (.runAction action consoleName) seq
        (commandPass policy host seq action consoleName) ↔
      CommandReturns policy action consoleName ∧
        ∀ rendered, commandText policy host.checkOutput action consoleName = .ok rendered →
          host.Sends (cmdResponse rendered seq) [] := by
  rw [← commandText_returns_iff policy host.checkOutput]
  cases htext : commandText policy host.checkOutput action consoleName with
  | ok rendered =>
      have hpass : commandPass policy host seq action consoleName =
          host.reply (cmdResponse rendered seq) [] := by simp only [commandPass, htext]
      rw [hpass, answered_reply_iff host [] (answers_cmdResponse ..)]
      constructor
      · rintro h
        refine ⟨⟨rendered, rfl⟩, ?_⟩
        rintro _ ⟨⟩
        exact h
      · rintro ⟨-, h⟩
        exact h rendered rfl
  | error e =>
      have hpass : commandPass policy host seq action consoleName = .raised e := by
        simp only [commandPass, htext]
      rw [hpass]
      refine ⟨fun h => absurd h (not_answered_raised _ seq e), ?_⟩
      rintro ⟨⟨_, h⟩, -⟩
      cases h

def Host.Stops (host : Host ρ) (seq : PyVal) (e : PyExc) : Prop :=
  host.pty.openpty = .error e ∨ ∃ master slave, host.pty.openpty = .ok (master, slave) ∧
    (host.pty.fork = .error e ∨ ∃ pid, host.pty.fork = .ok pid ∧
      (host.pty.close slave = .error e ∨
        host.pty.close slave = .ok () ∧ host.send (spawnOk pid seq) [master] = .error e))

/-- The reply is out, and closing the parent's copy of the master raises. -/
def Host.ClosesLate (host : Host ρ) (seq : PyVal) (e : PyExc) : Prop :=
  ∃ master slave pid, host.pty.openpty = .ok (master, slave) ∧ host.pty.fork = .ok pid ∧
    host.pty.close slave = .ok () ∧ host.Sends (spawnOk pid seq) [master] ∧
    host.pty.close master = .error e

theorem spawnChild_cases (host : Host ρ) (seq : PyVal) :
    (∃ e held, (∀ e', host.Stops seq e' ↔ e' = e) ∧ (∀ e', ¬ host.ClosesLate seq e') ∧
      host.spawnChild seq = ⟨[], held, false, .error e⟩) ∨
    ∃ pid master, (∀ e, ¬ host.Stops seq e) ∧
      (∀ e, host.ClosesLate seq e ↔ host.pty.close master = .error e) ∧
      host.spawnChild seq =
        ⟨[(.dict (spawnOk pid seq), [master])], [], false, host.pty.close master⟩ := by
  unfold Host.Stops Host.ClosesLate Host.Sends
  cases hopen : host.pty.openpty with
  | error e =>
      exact .inl ⟨e, [], by simp [eq_comm], by simp, by simp [Host.spawnChild, hopen, Pass.raised]⟩
  | ok pair =>
      obtain ⟨master, slave⟩ := pair
      cases hfork : host.pty.fork with
      | error e =>
          exact .inl ⟨e, [master, slave], by simp [eq_comm], by simp,
            by simp [Host.spawnChild, hopen, hfork, Pass.raised]⟩
      | ok pid =>
          cases hslave : host.pty.close slave with
          | error e =>
              refine .inl ⟨e, [master], by simp [hslave, eq_comm], ?_,
                by simp [Host.spawnChild, hopen, hfork, hslave, Pass.raised]⟩
              rintro e' ⟨_, _, _, ⟨⟩, ⟨⟩, hclosed, -⟩
              rw [hslave] at hclosed
              cases hclosed
          | ok _ =>
              cases hsend : host.send (spawnOk pid seq) [master] with
              | error e =>
                  refine .inl ⟨e, [master], by simp [hslave, hsend, eq_comm], ?_,
                    by simp [Host.spawnChild, hopen, hfork, hslave, hsend, Pass.raised]⟩
                  rintro e' ⟨_, _, _, ⟨⟩, ⟨⟩, -, hsent, -⟩
                  rw [hsend] at hsent
                  cases hsent
              | ok _ =>
                  exact .inr ⟨pid, master, by simp [hslave, hsend], by simp [hslave, hsend],
                    by simp [Host.spawnChild, hopen, hfork, hslave, hsend]⟩

/-- The child never comes back, an error before the reply can be reported, and no
error after it is. -/
structure Host.StartsOnce (host : Host ρ) (seq : PyVal) (cmd : List String) : Prop where
  child : host.childRun cmd = .ok ()
  stopped : ∀ e, host.Stops seq e → host.Sends (spawnError e.text seq) []
  late : ∀ e, host.ClosesLate seq e → ¬ host.Sends (spawnError e.text seq) []

theorem answered_recover_stopped_iff (host : Host ρ) (username consoleName : String)
    (seq : PyVal) (held : List ρ) (e : PyExc) :
    Answered (.spawn username consoleName) seq (host.recover seq ⟨[], held, false, .error e⟩) ↔
      host.Sends (spawnError e.text seq) [] := by
  have hmsg := answers_spawnError username consoleName e.text seq
  rw [← answered_reply_iff host [] hmsg]
  constructor
  · rintro ⟨-, -, honce⟩
    cases hsend : host.send (spawnError e.text seq) [] with
    | ok _ => exact (answered_reply_iff host [] hmsg).mpr hsend
    | error e' =>
        obtain ⟨_, _, hsent, -⟩ := honce
        simp [Host.recover, Host.reply, hsend, Pass.raised] at hsent
  · rintro ⟨-, -, honce⟩
    exact ⟨rfl, rfl, honce⟩

theorem answered_recover_late_iff (host : Host ρ) (username consoleName : String)
    (seq : PyVal) (pid : Int) (fds : List ρ) (e : PyExc) :
    Answered (.spawn username consoleName) seq
        (host.recover seq ⟨[(.dict (spawnOk pid seq), fds)], [], false, .error e⟩) ↔
      ¬ host.Sends (spawnError e.text seq) [] := by
  constructor
  · rintro ⟨-, -, _, _, hsent, -⟩ hsend
    simp [Host.recover, Host.reply, show host.send _ _ = _ from hsend] at hsent
  · intro hsend
    refine ⟨rfl, rfl, _, fds, ?_, answers_spawnOk username consoleName pid seq⟩
    cases hreply : host.send (spawnError e.text seq) [] with
    | ok _ => exact absurd hreply hsend
    | error e' => simp [Host.recover, Host.reply, hreply, Pass.raised]

theorem answered_parent_iff (host : Host ρ) (username consoleName : String) (seq : PyVal) :
    Answered (.spawn username consoleName) seq (host.recover seq (host.spawnChild seq)) ↔
      (∀ e, host.Stops seq e → host.Sends (spawnError e.text seq) []) ∧
        ∀ e, host.ClosesLate seq e → ¬ host.Sends (spawnError e.text seq) [] := by
  rcases spawnChild_cases host seq with
    ⟨e, held, hstops, hlate, hpass⟩ | ⟨pid, master, hstops, hlate, hpass⟩
  · rw [hpass, answered_recover_stopped_iff]
    refine ⟨fun h => ⟨?_, fun e' he' => absurd he' (hlate e')⟩, fun h => h.1 e ((hstops e).mpr rfl)⟩
    intro e' he'
    rw [(hstops e').mp he']
    exact h
  · rw [hpass]
    cases hclose : host.pty.close master with
    | ok _ =>
        refine ⟨fun _ => ⟨fun e he => absurd he (hstops e), fun e he => ?_⟩, fun _ => ?_⟩
        · rw [hlate, hclose] at he
          cases he
        · exact ⟨rfl, rfl, _, _, rfl, answers_spawnOk username consoleName pid seq⟩
    | error e =>
        rw [answered_recover_late_iff]
        refine ⟨fun h => ⟨fun e he => absurd he (hstops e), fun e' he' => ?_⟩, fun h => ?_⟩
        · rw [hlate, hclose] at he'
          cases he'
          exact h
        · exact h.2 e ((hlate e).mpr hclose)

theorem answered_start_iff (host : Host ρ) (username consoleName : String) (seq : PyVal)
    (cmd : List String) :
    Answered (.spawn username consoleName) seq (host.start seq cmd) ↔
      host.StartsOnce seq cmd := by
  cases hchild : host.childRun cmd with
  | ok _ =>
      have hstart : host.start seq cmd = host.recover seq (host.spawnChild seq) := by
        simp only [Host.start, hchild]
      rw [hstart, answered_parent_iff]
      exact ⟨fun h => ⟨hchild, h.1, h.2⟩, fun h => ⟨h.stopped, h.late⟩⟩
  | error e =>
      constructor
      · rintro ⟨-, halone, -⟩
        simp [Host.start, hchild] at halone
      · rintro ⟨hok, -, -⟩
        rw [hchild] at hok
        cases hok

/-- When the monitor answers a request.  A command line must come out of every
template that is reached, and what is sent must fit a frame. -/
def Answerable (policy : Policy) (host : Host ρ) (seq : PyVal) : Request → Prop
  | .runAction action consoleName => CommandReturns policy action consoleName ∧
      ∀ rendered, commandText policy host.checkOutput action consoleName = .ok rendered →
        host.Sends (cmdResponse rendered seq) []
  | .spawn username consoleName => SpawnReturns policy username consoleName ∧
      (∀ refusal, spawnPlan policy username consoleName = .ok (.refuse refusal) →
        host.Sends (spawnError (refusal.text policy.rt consoleName) seq) []) ∧
      ∀ cmd, spawnPlan policy username consoleName = .ok (.run cmd) → host.StartsOnce seq cmd
  | .lookupUid uid => host.Sends (peercredResponse (host.getpwuid uid) seq) []

theorem answered_spawnPass_iff (policy : Policy) (host : Host ρ) (seq : PyVal)
    (username consoleName : String) :
    Answered (.spawn username consoleName) seq (spawnPass policy host seq username consoleName) ↔
      Answerable policy host seq (.spawn username consoleName) := by
  rw [Answerable, ← spawnPlan_returns_iff]
  cases hplan : spawnPlan policy username consoleName with
  | error e =>
      have hpass : spawnPass policy host seq username consoleName = .raised e := by
        simp only [spawnPass, hplan]
      rw [hpass]
      refine ⟨fun h => absurd h (not_answered_raised _ seq e), ?_⟩
      rintro ⟨⟨_, h⟩, -⟩
      cases h
  | ok plan =>
      cases plan with
      | refuse refusal =>
          have hpass : spawnPass policy host seq username consoleName =
              host.reply (spawnError (refusal.text policy.rt consoleName) seq) [] := by
            simp only [spawnPass, hplan]
          rw [hpass, answered_reply_iff host [] (answers_spawnError ..)]
          simp
      | run cmd =>
          have hpass : spawnPass policy host seq username consoleName = host.start seq cmd := by
            simp only [spawnPass, hplan]
          rw [hpass, answered_start_iff]
          simp

/-- A request is answered exactly once, and survived, exactly when it is
answerable. -/
theorem answered_iff (policy : Policy) (host : Host ρ) (request : Request) (seq : PyVal) :
    (∃ result, pass policy host (request.message seq) = some result ∧
        Answered request seq result) ↔ Answerable policy host seq request := by
  simp only [pass_message, Option.some.injEq, exists_eq_left']
  cases request with
  | runAction action consoleName => exact answered_commandPass_iff ..
  | spawn username consoleName => exact answered_spawnPass_iff ..
  | lookupUid uid => exact answered_reply_iff host [] (answers_peercredResponse ..)

/-- An exec pattern whose placeholder is called `name`, as in every template of
the commands section. -/
def namedPattern : PyVal := .ofFields [("console_patterns", .list [.ofFields [
  ("console_name", .str "vm-\x7bname\x7d"), ("type", .str "exec"),
  ("cmd", .str "virsh console vm-\x7bname\x7d"), ("rw", .list [.str "lab-a"])]])]

def labUsers : PyVal := .ofFields [
  ("users", .ofFields [("student01", .ofFields [("groups", .list [.str "lab-a"])])])]

def calmHost : Host Nat where
  checkOutput _ := .completed "running"
  getpwuid _ := none
  pty := ⟨.ok (7, 8), .ok 4242, fun _ => .ok (), fun _ => .ok ()⟩
  codec := flatCodec []
  write _ := .ok ()

/-- The user may use the console, and his request ends the monitor: the call of
`format` gets the argument `name` twice. -/
theorem namedPattern_ends_monitor : ∃ cfg, ConsoleConfigStore.update .plain namedPattern = .ok cfg ∧
    ¬ ∃ result, pass ⟨.plain, cfg, labUsers⟩ calmHost
        ((Request.spawn "student01" "vm-lab01").message (.int 1)) = some result ∧
      Answered (.spawn "student01" "vm-lab01") (.int 1) result := by
  refine ⟨_, rfl, ?_⟩
  rintro ⟨result, hpass, hanswered⟩
  cases hpass
  cases hanswered.goesOn

end Vnctlsd.Monitor
