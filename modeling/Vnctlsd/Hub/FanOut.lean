import Vnctlsd.Library.Subscription
import Vnctlsd.Hub.Grace

/-! Console output on its way to the clients.  A hub is run together with the
record of every `sendall` it has made. -/
namespace Vnctlsd.ConsoleHub
open Vnctlsd.Library Vnctlsd.Library.Transition Vnctlsd.Library.Subscription

/-- A call of `sendall`; whether that of the notice raises nobody looks at. -/
inductive Sent where
  | chunk (cid : String) (data : List UInt8) (sent : Bool)
  | notice (cid : String)
  deriving DecidableEq

structure Feed where
  hub : Hub
  sent : List Sent

def started (name : String) (fd file : Nat) : Feed := ⟨create name fd file, []⟩

/-- The loops of `_reader` over its clients. -/
def sends (hub : Hub) : Act → List Sent
  | .broadcast dead =>
      match hub.reader with
      | .broadcasting data => hub.clients.keys.map fun cid => .chunk cid data (cid ∉ dead)
      | _ => []
  | .clear => hub.clients.keys.map .notice
  | _ => []

def feedStep (feed : Feed) (act : Act) : Option Feed :=
  (step feed.hub act).map fun next => ⟨next, feed.sent ++ sends feed.hub act⟩

def Sent.cid : Sent → String
  | .chunk cid _ _ | .notice cid => cid

def sentTo (cid : String) (sent : List Sent) : List Sent :=
  sent.filter fun call => call.cid = cid

/-- The console bytes that calls of `sendall` handed over. -/
def Sent.handed : Sent → List UInt8
  | .chunk _ data true => data
  | _ => []

def delivered (cid : String) (sent : List Sent) : List UInt8 :=
  (sentTo cid sent).flatMap Sent.handed

/-- What a step is to one client; `data` is the chunk last read. -/
def own (cid : String) (data : List UInt8) : Act → List (Event UInt8)
  | .addClient other _ => if other = cid then [.joined] else []
  | .removeClient other => if other = cid then [.left] else []
  | .broadcast dead => [.chunk data (cid ∉ dead)]
  | .clear => [.left]
  | _ => []

def lastRead (data : List UInt8) : Act → List UInt8
  | .read chunk => chunk
  | _ => data

def history (cid : String) : List UInt8 → List Act → List (Event UInt8)
  | _, [] => []
  | data, act :: acts => own cid data act ++ history cid (lastRead data act) acts

/-- Each client has received exactly the chunks of its own subscription, and is in
the client set exactly while it lasts. -/
def Faithful (acts : List Act) (feed : Feed) : Prop :=
  ∀ cid, delivered cid feed.sent = stream false (history cid [] acts) ∧
    (cid ∈ feed.hub.clients.keys ↔ subscribed false (history cid [] acts) = true)

theorem delivered_append (cid : String) (left right : List Sent) :
    delivered cid (left ++ right) = delivered cid left ++ delivered cid right := by
  simp only [delivered, sentTo, List.filter_append, List.flatMap_append]

/-- A loop over the clients calls each client's `sendall` once. -/
theorem sentTo_map {cid : String} {cids : List String} (hnodup : cids.Nodup)
    {call : String → Sent} (hcall : ∀ other, (call other).cid = other) :
    sentTo cid (cids.map call) = if cid ∈ cids then [call cid] else [] := by
  have hfilter : sentTo cid (cids.map call) = (cids.filter (· = cid)).map call := by
    unfold sentTo
    rw [List.filter_map]
    congr 2
    funext other
    simp only [Function.comp, hcall]
  rw [hfilter, List.filter_eq]
  split
  · rw [List.count_eq_one_of_mem hnodup ‹_›]
    rfl
  · rw [List.count_eq_zero_of_not_mem ‹_›]
    rfl

theorem step_reader {hub next : Hub} {act : Act} {data : List UInt8} (h : step hub act = some next)
    (hreader : next.reader = .broadcasting data) :
    act = .read data ∨ hub.reader = .broadcasting data ∧ lastRead data act = data := by
  cases act with
  | addClient | removeClient | armGrace | shutdown | writeFailed =>
      cases h
      exact .inr ⟨hreader, rfl⟩
  | broadcast dead =>
      simp only [step] at h
      split at h
      · split at h <;> cases h
        cases hreader
      · cases h
  | checkGrace =>
      simp only [step] at h
      split at h
      · split at h <;> cases h <;> exact .inr ⟨hreader, rfl⟩
      · cases h
  | test =>
      simp only [step] at h
      split at h <;> cases h
      dsimp only at hreader
      split at hreader <;> cases hreader
  | read chunk =>
      simp only [step] at h
      split at h <;> cases h
      dsimp only at hreader
      split at hreader <;> cases hreader
      exact .inl rfl
  | fail | clear | readerClose =>
      simp only [step] at h
      split at h <;> cases h
      cases hreader
  | armSpawned | expire | timerShutdown | timerClose | close =>
      simp only [step] at h
      split at h <;> cases h
      exact .inr ⟨hreader, rfl⟩

/-- What one step hands to a client, and whether it stays one. -/
theorem feedStep_delivered {feed next : Feed} {act : Act} {data : List UInt8}
    (h : feedStep feed act = some next)
    (hdata : ∀ chunk, feed.hub.reader = .broadcasting chunk → chunk = data) (cid : String) :
    delivered cid next.sent = delivered cid feed.sent ++
        stream (decide (cid ∈ feed.hub.clients.keys)) (own cid data act) ∧
      decide (cid ∈ next.hub.clients.keys) =
        subscribed (decide (cid ∈ feed.hub.clients.keys)) (own cid data act) := by
  obtain ⟨hub, hstep, rfl⟩ := Option.map_eq_some_iff.mp h
  have hclients := step_clients hstep
  dsimp only
  rw [delivered_append, hclients]
  cases act with
  | addClient other readOnly =>
      by_cases hother : other = cid
      · simp [own, hother, sends, clientsAfter, Dict.mem_keys_set, delivered, sentTo, stream,
          received, subscribed, after]
      · simp [own, hother, Ne.symm hother, sends, clientsAfter, Dict.mem_keys_set, delivered,
          sentTo, stream, subscribed]
  | removeClient other =>
      by_cases hother : other = cid
      · simp [own, hother, sends, clientsAfter, Dict.mem_keys_erase, delivered, sentTo, stream,
          received, subscribed, after]
      · simp [own, hother, Ne.symm hother, sends, clientsAfter, Dict.mem_keys_erase, delivered,
          sentTo, stream, subscribed]
  | broadcast dead =>
      simp only [step] at hstep
      split at hstep
      · rename_i chunk hreader
        rw [hdata chunk hreader] at hreader
        have hcall : ∀ other, (Sent.chunk other data (decide (other ∉ dead))).cid = other :=
          fun _ => rfl
        have hsent : sends feed.hub (.broadcast dead) =
            feed.hub.clients.keys.map fun cid => .chunk cid data (cid ∉ dead) := by
          simp only [sends, hreader]
        refine ⟨?_, ?_⟩
        · rw [hsent, delivered, delivered, sentTo_map feed.hub.clients.nodup_keys hcall]
          by_cases hmem : cid ∈ feed.hub.clients.keys <;> by_cases hdead : cid ∈ dead <;>
            simp [hmem, hdead, own, stream, received, Sent.handed]
        · simp [clientsAfter, Dict.mem_keys_eraseMany, own, subscribed, after]
      · cases hstep
  | clear =>
      have hcall : ∀ other, (Sent.notice other).cid = other := fun _ => rfl
      refine ⟨?_, rfl⟩
      rw [sends, delivered, delivered, sentTo_map feed.hub.clients.nodup_keys hcall]
      split <;> rfl
  | _ =>
      refine ⟨?_, rfl⟩
      simp [own, sends, delivered, sentTo, stream]

theorem feedStep_reader {feed next : Feed} {act : Act} {data : List UInt8}
    (h : feedStep feed act = some next)
    (hdata : ∀ chunk, feed.hub.reader = .broadcasting chunk → chunk = data) :
    ∀ chunk, next.hub.reader = .broadcasting chunk → chunk = lastRead data act := by
  obtain ⟨hub, hstep, rfl⟩ := Option.map_eq_some_iff.mp h
  intro chunk hreader
  rcases step_reader hstep hreader with rfl | ⟨hbefore, hsame⟩
  · rfl
  · -- a step that reads nothing keeps what was read before
    cases act with
    | read other => exact hsame.symm
    | _ => exact hdata chunk hbefore

theorem run_delivered {feed finish : Feed} {acts : List Act} {data : List UInt8}
    (hrun : Run feedStep feed acts finish)
    (hdata : ∀ chunk, feed.hub.reader = .broadcasting chunk → chunk = data) (cid : String) :
    delivered cid finish.sent = delivered cid feed.sent ++
        stream (decide (cid ∈ feed.hub.clients.keys)) (history cid data acts) ∧
      decide (cid ∈ finish.hub.clients.keys) =
        subscribed (decide (cid ∈ feed.hub.clients.keys)) (history cid data acts) := by
  induction hrun generalizing data with
  | nil feed => exact ⟨(List.append_nil _).symm, rfl⟩
  | @cons feed next finish act acts hstep _ ih =>
      obtain ⟨hdelivered, hmember⟩ := feedStep_delivered hstep hdata cid
      obtain ⟨hrest, hfinish⟩ := ih (feedStep_reader hstep hdata)
      rw [history, stream_append, ← hmember, hrest, hdelivered, List.append_assoc]
      refine ⟨rfl, ?_⟩
      rw [hfinish, hmember]
      exact (List.foldl_append ..).symm

/-- As long as nothing ends its membership a client is handed every chunk. -/
theorem delivered_while_member {feed finish : Feed} {acts : List Act} {data : List UInt8}
    (hrun : Run feedStep feed acts finish)
    (hdata : ∀ chunk, feed.hub.reader = .broadcasting chunk → chunk = data) {cid : String}
    (hmember : cid ∈ feed.hub.clients.keys)
    (hkeeps : ∀ event ∈ history cid data acts, event.keeps = true) :
    delivered cid finish.sent =
      delivered cid feed.sent ++ (history cid data acts).flatMap Event.data := by
  obtain ⟨hdelivered, -⟩ := run_delivered hrun hdata cid
  rw [hdelivered, decide_eq_true hmember, stream_of_keeps hkeeps]

theorem faithful_of_run {name : String} {fd file : Nat} {acts : List Act} {feed : Feed}
    (hrun : Run feedStep (started name fd file) acts feed) : Faithful acts feed := by
  intro cid
  obtain ⟨hdelivered, hmember⟩ := run_delivered hrun nofun cid
  refine ⟨hdelivered, ?_⟩
  exact decide_eq_true_iff.symm.trans (by rw [hmember]; rfl)

/-- A client that is not in the client set is sent nothing. -/
theorem feedStep_absent {feed next : Feed} {act : Act} {cid : String}
    (h : feedStep feed act = some next) (habsent : cid ∉ feed.hub.clients.keys)
    (hact : ∀ readOnly, act ≠ .addClient cid readOnly) :
    sentTo cid next.sent = sentTo cid feed.sent ∧ cid ∉ next.hub.clients.keys := by
  obtain ⟨hub, hstep, rfl⟩ := Option.map_eq_some_iff.mp h
  constructor
  · have hnone : sentTo cid (sends feed.hub act) = [] := by
      unfold sends
      split
      · split
        · rw [sentTo_map feed.hub.clients.nodup_keys fun _ => rfl, if_neg habsent]
        · rfl
      · rw [sentTo_map feed.hub.clients.nodup_keys fun _ => rfl, if_neg habsent]
      · rfl
    rw [sentTo, List.filter_append]
    exact (congrArg _ hnone).trans (List.append_nil _)
  · rw [step_clients hstep]
    cases act with
    | addClient other readOnly =>
        have hne : cid ≠ other := fun heq => hact readOnly (heq ▸ rfl)
        exact fun hmem => habsent ((Dict.mem_keys_set.mp hmem).resolve_left hne)
    | removeClient other => exact fun hmem => habsent (Dict.mem_keys_erase.mp hmem).1
    | broadcast dead => exact fun hmem => habsent (Dict.mem_keys_eraseMany.mp hmem).1
    | clear => exact List.not_mem_nil
    | _ => exact habsent

theorem run_absent {feed finish : Feed} {acts : List Act} {cid : String}
    (hrun : Run feedStep feed acts finish) (habsent : cid ∉ feed.hub.clients.keys)
    (hacts : ∀ readOnly, .addClient cid readOnly ∉ acts) :
    sentTo cid finish.sent = sentTo cid feed.sent := by
  induction hrun with
  | nil feed => rfl
  | @cons feed next finish act acts hstep _ ih =>
      have hact : ∀ readOnly, act ≠ .addClient cid readOnly :=
        fun readOnly heq => hacts readOnly (heq ▸ List.mem_cons_self ..)
      obtain ⟨hsame, hstill⟩ := feedStep_absent hstep habsent hact
      rw [ih hstill fun readOnly hmem => hacts readOnly (List.mem_cons_of_mem _ hmem), hsame]

theorem removed_absent {feed removed : Feed} {cid : String}
    (h : feedStep feed (.removeClient cid) = some removed) :
    sentTo cid removed.sent = sentTo cid feed.sent ∧ cid ∉ removed.hub.clients.keys := by
  cases h
  refine ⟨congrArg _ (List.append_nil _), ?_⟩
  exact fun hmem => (Dict.mem_keys_erase.mp hmem).2 rfl

/-- What a client is handed is its own stream; whatever becomes of the others, a
run that is the same to it hands it the same; and once removed it is sent nothing. -/
theorem fan_out_faithful {name : String} {fd file : Nat} {acts : List Act} {feed : Feed}
    (hrun : Run feedStep (started name fd file) acts feed) :
    Faithful acts feed ∧
      (∀ cid acts' feed', Run feedStep (started name fd file) acts' feed' →
        history cid [] acts' = history cid [] acts →
        delivered cid feed'.sent = delivered cid feed.sent ∧
          (cid ∈ feed'.hub.clients.keys ↔ cid ∈ feed.hub.clients.keys)) ∧
      ∀ cid removed later finish, feedStep feed (.removeClient cid) = some removed →
        Run feedStep removed later finish → (∀ readOnly, .addClient cid readOnly ∉ later) →
        sentTo cid finish.sent = sentTo cid feed.sent := by
  have hfaithful := faithful_of_run hrun
  refine ⟨hfaithful, ?_, ?_⟩
  · intro cid acts' feed' hrun' hsame
    obtain ⟨hdelivered, hmember⟩ := hfaithful cid
    obtain ⟨hdelivered', hmember'⟩ := faithful_of_run hrun' cid
    rw [hsame] at hdelivered' hmember'
    exact ⟨hdelivered'.trans hdelivered.symm, hmember'.trans hmember.symm⟩
  · intro cid removed later finish hremove hlater hacts
    obtain ⟨hsame, habsent⟩ := removed_absent hremove
    rw [run_absent hlater habsent hacts, hsame]

/-- Two clients, the second of which fails at the second chunk. -/
def twoClients : List Act :=
  [.addClient "s1" false, .addClient "s2" true, .test, .read [1, 2], .broadcast [], .test,
    .read [3], .broadcast ["s2"], .test, .read [4, 5], .broadcast []]

theorem fan_out_faithful_twoClients :
    ∃ feed, exec feedStep (started "lab01" 5 0) twoClients = some feed ∧
      delivered "s1" feed.sent = [1, 2, 3, 4, 5] ∧ delivered "s2" feed.sent = [1, 2] ∧
      Faithful twoClients feed :=
  ⟨_, rfl, by decide, by decide, (@fan_out_faithful _ _ _ twoClients _ (run_of_exec rfl)).1⟩

end Vnctlsd.ConsoleHub
