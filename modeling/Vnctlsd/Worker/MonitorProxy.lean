import Vnctlsd.Ipc.Requests
import Vnctlsd.Library.Transition

/-! The worker's side of the rpc channel.  A lock makes every call one step, and
the monitor puts its one answer on the socket once the request is out. -/
namespace Vnctlsd.MonitorProxy
open Vnctlsd.Library.ByteStream Vnctlsd.Library.Transition Vnctlsd.Python Ipc

structure Proxy where
  seq : Nat
  poisoned : Bool
  deriving DecidableEq

structure Rpc (ρ : Type) where
  proxy : Proxy
  inbox : Source ρ

def initial (ρ : Type) : Rpc ρ := ⟨⟨0, false⟩, ⟨[], false, [], []⟩⟩

def nextSeq (proxy : Proxy) : Nat := (proxy.seq + 1) % 0x100000000

structure Call (ρ : Type) where
  request : Request
  reply : PyVal
  fds : List ρ
  splits : List Nat

variable {ρ : Type}

def settle (rt : Runtime) (proxy : Proxy) (request : Request) (resp : PyVal) (fds : List ρ) :
    Py (Proxy × Py (PyVal × List ρ)) := do
  let seq ← resp.get "seq" .none
  let kind ← resp.get "type" .none
  let shown := rt.repr kind
  pure (if !seq.eq (.int proxy.seq) then
      ({ proxy with poisoned := true }, raise .runtimeError "rpc seq mismatch")
    else if !kind.eqStr request.expectType then
      ({ proxy with poisoned := true }, raise .runtimeError s!"rpc type mismatch: got {shown}")
    else (proxy, .ok (resp, fds)))

/-- `_call` under the lock.  There is no next state when the call never returns,
or when the monitor cannot send its answer. -/
def call (rt : Runtime) (codec : Codec) (rpc : Rpc ρ) (c : Call ρ) :
    Option (Rpc ρ × Py (PyVal × List ρ)) :=
  if rpc.proxy.poisoned then some (rpc, raise .runtimeError "rpc channel poisoned")
  else
    let proxy := { rpc.proxy with seq := nextSeq rpc.proxy }
    match (ipcSend codec (c.request.message (.int proxy.seq)) [] : Py (List (Cell ρ))) with
    | .error e => some ({ rpc with proxy := proxy }, .error e)
    | .ok _ =>
        match ipcSend codec c.reply c.fds with
        | .error _ => none
        | .ok answer =>
            match (ipcRecv codec).run { rpc.inbox with
                cells := rpc.inbox.cells ++ answer, splits := c.splits } with
            | .blocked => none
            | .raised e inbox => some (⟨proxy, inbox⟩, .error e)
            | .value (resp, fds) inbox =>
                match settle rt proxy c.request resp fds with
                | .error e => some (⟨proxy, inbox⟩, .error e)
                | .ok (proxy, result) => some (⟨proxy, inbox⟩, result)

def step (rt : Runtime) (codec : Codec) (rpc : Rpc ρ) (c : Call ρ) : Option (Rpc ρ) :=
  (call rt codec rpc c).map Prod.fst

/-- The channel is given up, or the next byte to be read begins the next reply. -/
def InStep (rpc : Rpc ρ) : Prop := rpc.proxy.poisoned = true ∨ rpc.inbox.cells = []

def AnswerFits (codec : Codec) (_rpc : Rpc ρ) (c : Call ρ) : Prop :=
  (∀ payload, codec.dumps c.reply = .ok payload → payload.length ≤ maxMsg) ∧
    c.fds.length ≤ maxFds

theorem call_poisoned (rt : Runtime) (codec : Codec) {rpc : Rpc ρ} (c : Call ρ)
    (h : rpc.proxy.poisoned = true) :
    call rt codec rpc c = some (rpc, raise .runtimeError "rpc channel poisoned") := by
  rw [call, if_pos h]

def Drained (outcome : Outcome ρ PyExc α) : Prop :=
  match outcome with
  | .value _ source | .raised _ source => source.cells = []
  | .blocked => False

theorem drained_ofExcept_bind {result : Py α} {second : α → Reader ρ PyExc β}
    {source : Source ρ} (hsource : source.cells = [])
    (hsecond : ∀ a, Drained ((second a).run source)) :
    Drained ((Reader.ofExcept result >>= second).run source) := by
  cases result with
  | error e =>
      rw [Reader.ofExcept, Reader.run_bind_raised (Reader.run_raise e source)]
      exact hsource
  | ok a =>
      rw [Reader.ofExcept, Reader.run_bind_value (Reader.run_pure a source)]
      exact hsecond a

/-- A frame within the limits is consumed to its last byte, even where its
payload is no JSON object. -/
theorem ipcRecv_drains {codec : Codec} {msg : PyVal} {fds : List ρ} {cells : List (Cell ρ)}
    (hsend : ipcSend codec msg fds = .ok cells)
    (hlength : ∀ payload, codec.dumps msg = .ok payload → payload.length ≤ maxMsg)
    (hfds : fds.length ≤ maxFds) {source : Source ρ} (h : source.cells = cells) :
    Drained ((ipcRecv codec).run source) := by
  obtain ⟨payload, header, hdumps, hpack, rfl⟩ := ipcSend_spec hsend
  obtain ⟨hheader, hunpack⟩ := unpackHeader_packHeader hpack
  obtain ⟨splits, hread⟩ := recvHeader_sent hheader fds h
  have hpayload : { source with cells := payload.map plain, splits := splits }.cells =
      payload.map plain ++ [] := (List.append_nil _).symm
  obtain ⟨splits', hbody⟩ := @recvBody_payload ρ codec payload fds [] _ hpayload
  rw [ipcRecv, Reader.run_bind_value hread, hunpack, List.take_of_length_le hfds]
  simp only [if_neg (Nat.not_lt.mpr hfds), if_neg (Nat.not_lt.mpr (hlength payload hdumps))]
  rw [hbody]
  exact drained_ofExcept_bind rfl fun msg => drained_ofExcept_bind rfl fun _ => rfl

/-- A frame whose payload is beyond the limit leaves all of it unread. -/
theorem ipcRecv_leaves {codec : Codec} {msg : PyVal} {fds : List ρ} {cells : List (Cell ρ)}
    (hsend : ipcSend codec msg fds = .ok cells) {payload : List UInt8}
    (hdumps : codec.dumps msg = .ok payload) (hlong : maxMsg < payload.length)
    (hfds : fds.length ≤ maxFds) {source : Source ρ} (h : source.cells = cells) :
    ∃ e splits, (ipcRecv codec).run source =
      .raised e { source with cells := payload.map plain, splits := splits } := by
  obtain ⟨payload', header, hdumps', hpack, rfl⟩ := ipcSend_spec hsend
  rw [hdumps] at hdumps'
  cases hdumps'
  obtain ⟨hheader, hunpack⟩ := unpackHeader_packHeader hpack
  obtain ⟨splits, hread⟩ := recvHeader_sent hheader fds h
  rw [ipcRecv, Reader.run_bind_value hread, hunpack]
  simp only [if_neg (Nat.not_lt.mpr hfds), if_pos hlong]
  exact ⟨_, splits, Reader.run_raise _ _⟩

theorem step_inStep (rt : Runtime) (codec : Codec) (rpc : Rpc ρ) (c : Call ρ) (next : Rpc ρ)
    (hinv : InStep rpc) (hfits : AnswerFits codec rpc c) (h : step rt codec rpc c = some next) :
    InStep next := by
  obtain ⟨⟨rpc', result⟩, hcall, rfl⟩ := Option.map_eq_some_iff.mp h
  cases hpoisoned : rpc.proxy.poisoned with
  | true =>
      rw [call_poisoned rt codec c hpoisoned] at hcall
      cases hcall
      exact .inl hpoisoned
  | false =>
      have hempty : rpc.inbox.cells = [] := hinv.resolve_left (by simp [hpoisoned])
      simp only [call, hpoisoned, Bool.false_eq_true, if_false] at hcall
      split at hcall
      · cases hcall
        exact .inr hempty
      · split at hcall
        · cases hcall
        · rename_i answer hsend
          rw [hempty, List.nil_append] at hcall
          have hcells : { rpc.inbox with cells := answer, splits := c.splits }.cells = answer := rfl
          have hdrained := ipcRecv_drains hsend hfits.1 hfits.2 hcells
          split at hcall
          · cases hcall
          · rename_i e inbox hrun
            cases hcall
            rw [hrun] at hdrained
            exact .inr hdrained
          · rename_i resp fds inbox hrun
            rw [hrun] at hdrained
            split at hcall <;> cases hcall <;> exact .inr hdrained

/-- In every sequence of calls whose answers fit, the channel stays in step. -/
theorem inStep_of_answersFit (rt : Runtime) (codec : Codec) {calls : List (Call ρ)}
    {rpc : Rpc ρ} (hrun : GuardedRun (step rt codec) (AnswerFits codec) (initial ρ) calls rpc) :
    InStep rpc :=
  hrun.invariant (step_inStep rt codec) (.inr rfl)

theorem step_leaves (rt : Runtime) {codec : Codec} (rpc : Rpc ρ) {c : Call ρ}
    {request answer : List (Cell ρ)} {payload : List UInt8}
    (hopen : rpc.proxy.poisoned = false) (hempty : rpc.inbox.cells = [])
    (hrequest : ipcSend codec (c.request.message (.int (nextSeq rpc.proxy))) [] = .ok request)
    (hanswer : ipcSend codec c.reply c.fds = .ok answer)
    (hdumps : codec.dumps c.reply = .ok payload) (hlong : maxMsg < payload.length)
    (hfds : c.fds.length ≤ maxFds) :
    ∃ next, step rt codec rpc c = some next ∧ next.proxy.poisoned = false ∧
      next.inbox.cells = payload.map plain := by
  have hcells : { rpc.inbox with cells := answer, splits := c.splits }.cells = answer := rfl
  obtain ⟨e, splits, hrun⟩ := ipcRecv_leaves hanswer hdumps hlong hfds hcells
  refine ⟨⟨{ rpc.proxy with seq := nextSeq rpc.proxy },
    { rpc.inbox with cells := payload.map plain, splits := splits }⟩, ?_, hopen, rfl⟩
  simp only [step, call, hopen, Bool.false_eq_true, if_false, hrequest, hanswer, hempty,
    List.nil_append, hrun, Option.map_some]

def statusCall (rendered : String) : Call Nat :=
  ⟨.runAction "status" "lab01", .dict (cmdResponse rendered (.int 1)), [], [3, 0, 40]⟩

def statusCodec : Codec := flatCodec (cmdResponse "up" (.int 1))

theorem inStep_of_answersFit_status :
    ∃ rpc, exec (step .plain statusCodec) (initial Nat) [statusCall "up"] = some rpc ∧
      InStep rpc := by
  have hrun : ∃ rpc, exec (step .plain statusCodec) (initial Nat) [statusCall "up"] = some rpc ∧
      GuardedRun (step .plain statusCodec) (AnswerFits statusCodec) (initial Nat)
        [statusCall "up"] rpc := by
    refine ⟨_, rfl, .cons ⟨?_, by decide⟩ rfl (.nil _)⟩
    intro payload hdumps
    cases hdumps
    decide
  obtain ⟨rpc, hexec, hrun⟩ := hrun
  exact ⟨rpc, hexec, inStep_of_answersFit _ _ hrun⟩

theorem length_flatText (rendered : String) :
    (flatText (cmdResponse rendered (.int 1))).length = rendered.toList.length + 46 := by
  simp only [flatText, cmdResponse, flatFields, flatValue, List.length_map, List.length_cons,
    List.length_append]
  have hseq : (Int.repr 1).toList.length = 1 := rfl
  simp [hseq]
  omega

def longOutput : String := String.ofList (List.replicate 70000 'a')

theorem length_longOutput : longOutput.toList.length = 70000 := by
  have h : ∀ n : Nat, (String.ofList (List.replicate n 'a')).toList.length = n := by
    intro n
    rw [String.toList_ofList, List.length_replicate]
  exact h 70000

/-- The call raises, the channel is not poisoned, and the whole answer is still
there for the next call to read. -/
theorem longOutput_out_of_step :
    ∃ rpc, Run (step .plain (flatCodec [])) (initial Nat) [statusCall longOutput] rpc ∧
      rpc.proxy.poisoned = false ∧ ¬ InStep rpc := by
  have hlength : (flatText (cmdResponse longOutput (.int 1))).length = 70046 := by
    rw [length_flatText, length_longOutput]
  have hrequest : ∃ cells : List (Cell Nat), ipcSend (flatCodec [])
      ((statusCall longOutput).request.message (.int 1)) [] = .ok cells := ⟨_, rfl⟩
  have hanswer : ∃ cells : List (Cell Nat), ipcSend (flatCodec [])
      (statusCall longOutput).reply [] = .ok cells :=
    ipcSend_returns ⟨_, rfl⟩ rfl (by rw [hlength]; decide) (by decide)
  obtain ⟨request, hrequest⟩ := hrequest
  obtain ⟨answer, hanswer⟩ := hanswer
  obtain ⟨next, hstep, hopen, hcells⟩ := step_leaves .plain (initial Nat) rfl rfl hrequest
    hanswer rfl (by rw [hlength]; decide) (by decide)
  refine ⟨next, .cons hstep (.nil next), hopen, ?_⟩
  rintro (hpoisoned | hempty)
  · rw [hopen] at hpoisoned
    cases hpoisoned
  · rw [hcells, List.map_eq_nil_iff] at hempty
    rw [hempty] at hlength
    cases hlength

end Vnctlsd.MonitorProxy
