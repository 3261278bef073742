import Vnctlsd.ConfigReads
import Vnctlsd.Library.Transition
import Vnctlsd.Session.Registry

/-! The two maps of the session registry as its four methods leave them, and how an
enforcement pass parts the sessions into those it kills and those it keeps. -/
namespace Vnctlsd.SessionRegistry
open Vnctlsd.Library Transition Vnctlsd.Python GlobPatterns ConsoleConfigStore ACLResolver
open ConfigReads

/-- `_sessions` and `_socks`, each with keys of its own. -/
structure Maps where
  sessions : Dict String Session
  socks : Dict String Sock

structure Report where
  killed : List String
  retained : List String
  maps : Maps
  dropped : List (String × Sock)

namespace Maps

def empty : Maps := ⟨.empty, .empty⟩

def add (maps : Maps) (sid username state : String) (sock : Sock) (console : Option String)
    (readOnly : Bool) : Maps :=
  ⟨maps.sessions.set sid ⟨username, state, console, readOnly⟩, maps.socks.set sid sock⟩

def update (maps : Maps) (sid : String) (f : Session → Session) : Maps :=
  { maps with sessions := maps.sessions.modify sid f }

def remove (maps : Maps) (sid : String) : Maps :=
  ⟨maps.sessions.erase sid, maps.socks.erase sid⟩

/-- The second loop of `kill_stale`.  `del` raises for a session that is not there, and
`pop` does not. -/
def dropStale (calls : String → SockCalls) : List String → Maps → Py (Maps × List (String × Sock))
  | [], maps => .ok (maps, [])
  | sid :: rest, maps => do
      let left := (maps.socks.get? sid).map fun sock => (sid, disconnect (calls sid) sock)
      if (maps.sessions.get? sid).isNone then raise .keyError sid
      else do
        let (after, others) ← dropStale calls rest ⟨maps.sessions.erase sid, maps.socks.erase sid⟩
        pure (after, left.toList ++ others)

def killStale (rt : Runtime) (userMap cfg : PyVal) (calls : String → SockCalls) (maps : Maps) :
    Py Report := do
  let found ← scan rt userMap cfg maps.sessions.entries
  let (after, dropped) ← dropStale calls found.stale maps
  pure ⟨found.killed, found.retained, after, dropped⟩

inductive Op where
  | add (sid username state : String) (sock : Sock) (console : Option String) (readOnly : Bool)
  | update (sid : String) (f : Session → Session)
  | remove (sid : String)
  | killStale (userMap cfg : PyVal) (calls : String → SockCalls)

/-- A pass that raises has changed nothing: it raises in the first loop. -/
def step (rt : Runtime) (maps : Maps) : Op → Option Maps
  | .add sid username state sock console readOnly =>
      some (maps.add sid username state sock console readOnly)
  | .update sid f => some (maps.update sid f)
  | .remove sid => some (maps.remove sid)
  | .killStale userMap cfg calls =>
      match maps.killStale rt userMap cfg calls with
      | .ok report => some report.maps
      | .error _ => some maps

def Reachable (rt : Runtime) (maps : Maps) : Prop := ∃ ops, Run (step rt) empty ops maps

def ofRegistry (reg : Registry) : Maps := ⟨reg.sessions, reg.socks⟩

/-- Ids that are all there can be dropped one after another. -/
theorem dropStale_eq (calls : String → SockCalls) {sids : List String} {maps : Maps}
    (hnodup : sids.Nodup) (hthere : ∀ sid ∈ sids, sid ∈ maps.sessions.keys) :
    dropStale calls sids maps =
      .ok (⟨maps.sessions.eraseMany sids, maps.socks.eraseMany sids⟩, sids.filterMap fun sid =>
        (maps.socks.get? sid).map fun sock => (sid, disconnect (calls sid) sock)) := by
  induction sids generalizing maps with
  | nil => rfl
  | cons sid rest ih =>
      obtain ⟨hfresh, hrest⟩ := List.nodup_cons.mp hnodup
      obtain ⟨hsid, hothers⟩ := List.forall_mem_cons.mp hthere
      obtain ⟨session, hsession⟩ := Dict.exists_of_mem_keys hsid
      have hne : ∀ other ∈ rest, other ≠ sid := fun other hother =>
        ne_of_mem_of_not_mem hother hfresh
      have hthere' : ∀ other ∈ rest, other ∈ (maps.sessions.erase sid).keys := fun other hother =>
        Dict.mem_keys_erase.mpr ⟨hothers other hother, hne other hother⟩
      have hsame : (rest.filterMap fun other => ((maps.socks.erase sid).get? other).map fun sock =>
          (other, disconnect (calls other) sock)) =
          rest.filterMap fun other => (maps.socks.get? other).map fun sock =>
            (other, disconnect (calls other) sock) :=
        List.filterMap_congr fun other hother => by rw [Dict.get?_erase, if_neg (hne other hother)]
      rw [dropStale, hsession]
      dsimp only [Option.isNone]
      rw [if_neg Bool.false_ne_true,
        @ih ⟨maps.sessions.erase sid, maps.socks.erase sid⟩ hrest hthere', hsame,
        List.filterMap_cons]
      cases maps.socks.get? sid <;> rfl

end Maps

/-- What the pass says to a session whose check returns. -/
def verdictOf (rt : Runtime) (userMap cfg : PyVal) (entry : String × Session) : Verdict :=
  match check rt userMap cfg entry.2 with
  | .ok verdict => verdict
  | .error _ => .atPrompt

def Judged (rt : Runtime) (userMap cfg : PyVal) (entries : List (String × Session))
    (verdict : String × Session → Verdict) : Prop :=
  ∀ entry ∈ entries, check rt userMap cfg entry.2 = .ok (verdict entry)

theorem scan_eq {rt : Runtime} {userMap cfg : PyVal} {entries : List (String × Session)}
    {verdict : String × Session → Verdict} (h : Judged rt userMap cfg entries verdict) :
    scan rt userMap cfg entries = .ok {
      stale := (entries.filter fun entry => (verdict entry).stale).map Prod.fst
      killed := (entries.filter fun entry => (verdict entry).stale).map fun entry =>
        describe entry.2 (verdict entry)
      retained := (entries.filter fun entry => !(verdict entry).stale).map fun entry =>
        describe entry.2 (verdict entry) } := by
  induction entries with
  | nil => rfl
  | cons entry rest ih =>
      obtain ⟨hentry, hrest⟩ := List.forall_mem_cons.mp h
      simp only [scan, hentry, ih hrest, bind, Except.bind]
      cases hstale : (verdict entry).stale <;> simp [hstale, pure, Except.pure]

theorem judged_of_scan {rt : Runtime} {userMap cfg : PyVal} {entries : List (String × Session)}
    {found : Scan} (h : scan rt userMap cfg entries = .ok found) :
    Judged rt userMap cfg entries (verdictOf rt userMap cfg) := by
  intro entry hentry
  obtain ⟨verdict, hcheck⟩ := scan_checks rt userMap cfg h entry hentry
  rw [verdictOf, hcheck]

section

variable {maps : Maps} {verdict : String × Session → Verdict}

def staleIds (maps : Maps) (verdict : String × Session → Verdict) : List String :=
  (maps.sessions.entries.filter fun entry => (verdict entry).stale).map Prod.fst

theorem nodup_staleIds : (staleIds maps verdict).Nodup :=
  maps.sessions.nodup.sublist (List.filter_sublist.map Prod.fst)

theorem staleIds_there : ∀ sid ∈ staleIds maps verdict, sid ∈ maps.sessions.keys :=
  (List.filter_sublist.map Prod.fst).subset

theorem mem_staleIds_iff {entry : String × Session} (hentry : entry ∈ maps.sessions.entries) :
    entry.1 ∈ staleIds maps verdict ↔ (verdict entry).stale = true := by
  constructor
  · intro h
    obtain ⟨other, hother, heq⟩ := List.mem_map.mp h
    obtain ⟨hmem, hstale⟩ := List.mem_filter.mp hother
    rwa [← List.inj_on_of_nodup_map maps.sessions.nodup hmem hentry heq]
  · exact fun h => List.mem_map_of_mem (List.mem_filter.mpr ⟨hentry, h⟩)

end

/-- A pass on sessions whose checks all return. -/
theorem killStale_eq {rt : Runtime} {userMap cfg : PyVal} {maps : Maps}
    {verdict : String × Session → Verdict}
    (h : Judged rt userMap cfg maps.sessions.entries verdict) (calls : String → SockCalls) :
    maps.killStale rt userMap cfg calls = .ok {
      killed := (maps.sessions.entries.filter fun entry => (verdict entry).stale).map fun entry =>
        describe entry.2 (verdict entry)
      retained := (maps.sessions.entries.filter fun entry => !(verdict entry).stale).map
        fun entry => describe entry.2 (verdict entry)
      maps := ⟨maps.sessions.eraseMany (staleIds maps verdict),
        maps.socks.eraseMany (staleIds maps verdict)⟩
      dropped := (staleIds maps verdict).filterMap fun sid =>
        (maps.socks.get? sid).map fun sock => (sid, disconnect (calls sid) sock) } := by
  have hdrop := Maps.dropStale_eq calls (@nodup_staleIds maps verdict) staleIds_there
  unfold staleIds at hdrop ⊢
  rw [Maps.killStale, scan_eq h]
  simp only [bind, Except.bind, hdrop]
  rfl

/-- The registry whose maps have the same keys by construction does as the maps do. -/
theorem killStale_ofRegistry (rt : Runtime) (userMap cfg : PyVal) (calls : String → SockCalls)
    (reg : Registry) :
    (Maps.ofRegistry reg).killStale rt userMap cfg calls =
      (killStale rt userMap cfg calls reg).map fun result =>
        ⟨result.killed, result.retained, Maps.ofRegistry result.registry, result.dropped⟩ := by
  cases hscan : scan rt userMap cfg reg.sessions.entries with
  | error e =>
      simp [Maps.killStale, killStale, Maps.ofRegistry, hscan, bind, Except.bind, Except.map]
  | ok found =>
      have hjudged := judged_of_scan hscan
      have heq := scan_eq hjudged
      rw [hscan] at heq
      rw [@killStale_eq rt userMap cfg (Maps.ofRegistry reg) _ hjudged, killStale, hscan]
      cases heq
      rfl

theorem exists_registry {rt : Runtime} {maps : Maps} (h : Maps.Reachable rt maps) :
    ∃ reg, maps = Maps.ofRegistry reg := by
  obtain ⟨ops, hrun⟩ := h
  refine @Run.invariant _ _ _ (fun maps => ∃ reg, maps = Maps.ofRegistry reg) ?_ _ _ _ hrun
    ⟨.empty, rfl⟩
  rintro _ op next ⟨reg, rfl⟩ hstep
  cases op with
  | add sid username state sock console readOnly =>
      cases hstep
      exact ⟨add reg sid username state sock console readOnly, rfl⟩
  | update sid f =>
      cases hstep
      exact ⟨update reg sid f, rfl⟩
  | remove sid =>
      cases hstep
      exact ⟨remove reg sid, rfl⟩
  | killStale userMap cfg calls =>
      rw [Maps.step, killStale_ofRegistry] at hstep
      cases hresult : killStale rt userMap cfg calls reg with
      | error e =>
          rw [hresult] at hstep
          cases hstep
          exact ⟨reg, rfl⟩
      | ok result =>
          rw [hresult] at hstep
          cases hstep
          exact ⟨result.registry, rfl⟩

/-- The pass finds out what a console's definition is: there is one; or there are no
patterns; or the console has no entry, not even an empty one, and the patterns can be
matched with the empty path. -/
def LookupReads (cfg : PyVal) (consoleName : String) : Prop :=
  ∃ consoles, cfg.get "consoles" .emptyDict = .ok (.dict consoles) ∧
    ((∃ defn, consoles.lookup (.str consoleName) = some defn ∧ defn.isNone = false) ∨
      ∃ pats, (cfg.get "console_patterns" .emptyList >>= PyVal.iter) = .ok pats ∧
        (pats = [] ∨ consoles.lookup (.str consoleName) = none ∧ PatternsRead (.str "") pats))

theorem matchSocketOf_eq {cfg path : PyVal} {consoleName : String}
    (h : socketOf cfg consoleName = .ok path) (pats : List PyVal) :
    matchSocketOf cfg consoleName pats = matchSocketPattern path pats := by
  induction pats with
  | nil => rfl
  | cons pat rest ih =>
      rw [matchSocketOf, matchSocketPattern, h, ih]
      rfl

theorem matchSocketOf_returns_iff {cfg : PyVal} {consoles : List (Key × PyVal)}
    {consoleName : String} (hconsoles : cfg.get "consoles" .emptyDict = .ok (.dict consoles))
    (hnone : (consoles.lookup (.str consoleName)).getD .none = .none) (pats : List PyVal) :
    (∃ found, matchSocketOf cfg consoleName pats = .ok found) ↔
      pats = [] ∨ consoles.lookup (.str consoleName) = none ∧ PatternsRead (.str "") pats := by
  cases hlookup : consoles.lookup (.str consoleName) with
  | none =>
      have hsocket : socketOf cfg consoleName = .ok (.str "") := by
        simp only [socketOf, hconsoles, PyVal.get_dict, hlookup, bind, Except.bind]
        rfl
      have hempty : pats = [] → PatternsRead (.str "") pats := by
        rintro rfl
        trivial
      rw [matchSocketOf_eq hsocket, matchSocketPattern_returns_iff]
      simp only [true_and, or_iff_right_of_imp hempty]
  | some entry =>
      rw [hlookup, Option.getD_some] at hnone
      subst hnone
      -- an explicit `null` has no `get`
      have hsocket : ∃ e, socketOf cfg consoleName = .error e := by
        simp only [socketOf, hconsoles, PyVal.get_dict, hlookup, bind, Except.bind]
        exact ⟨_, rfl⟩
      obtain ⟨e, hsocket⟩ := hsocket
      cases pats with
      | nil => exact iff_of_true ⟨_, rfl⟩ (.inl rfl)
      | cons pat rest => simp [matchSocketOf, hsocket, bind, Except.bind]

theorem enforcementLookup_returns_iff {cfg : PyVal} {consoleName : String} :
    (∃ found, enforcementLookup cfg consoleName = .ok found) ↔ LookupReads cfg consoleName := by
  constructor
  · rintro ⟨found, h⟩
    obtain ⟨defn, hdefn, h⟩ := bind_eq_ok.mp h
    obtain ⟨consoles, hconsoles, hdefn⟩ := bind_eq_ok.mp hdefn
    obtain ⟨entries, rfl⟩ := PyVal.eq_dict_of_get_ok hdefn
    rw [PyVal.get_dict] at hdefn
    refine ⟨entries, hconsoles, ?_⟩
    cases hsome : defn.isNone with
    | false =>
        refine .inl ⟨defn, ?_, hsome⟩
        cases hlookup : entries.lookup (.str consoleName) with
        | none =>
            rw [hlookup] at hdefn
            cases hdefn
            cases hsome
        | some entry =>
            rw [hlookup] at hdefn
            exact congrArg some (Except.ok.inj hdefn)
    | true =>
        obtain rfl := (PyVal.isNone_eq_true_iff defn).mp hsome
        obtain ⟨pats, hpats, h⟩ := bind_eq_ok.mp h
        obtain ⟨items, hitems, h⟩ := bind_eq_ok.mp h
        exact .inr ⟨items, bind_eq_ok.mpr ⟨pats, hpats, hitems⟩,
          (matchSocketOf_returns_iff hconsoles (Except.ok.inj hdefn) items).mp ⟨found, h⟩⟩
  · rintro ⟨entries, hconsoles, hreads⟩
    have hdefn : explicitConsole cfg consoleName =
        .ok ((entries.lookup (.str consoleName)).getD .none) :=
      bind_eq_ok.mpr ⟨_, hconsoles, PyVal.get_dict ..⟩
    cases hsome : ((entries.lookup (.str consoleName)).getD .none).isNone with
    | false =>
        refine ⟨some ((entries.lookup (.str consoleName)).getD .none, .emptyDict),
          bind_eq_ok.mpr ⟨_, hdefn, ?_⟩⟩
        rw [hsome]
        rfl
    | true =>
        have hnone := (PyVal.isNone_eq_true_iff _).mp hsome
        rcases hreads with ⟨defn, hlookup, hnot⟩ | ⟨items, hitems, hreads⟩
        · rw [hlookup, Option.getD_some, hnot] at hsome
          cases hsome
        · obtain ⟨pats, hpats, hitems⟩ := bind_eq_ok.mp hitems
          obtain ⟨found, hfound⟩ := (matchSocketOf_returns_iff hconsoles hnone items).mpr hreads
          refine ⟨found, bind_eq_ok.mpr ⟨_, hdefn, ?_⟩⟩
          rw [hsome]
          exact bind_eq_ok.mpr ⟨pats, hpats, bind_eq_ok.mpr ⟨items, hitems, hfound⟩⟩

def LookupsRead (cfg : PyVal) (maps : Maps) : Prop :=
  ∀ entry ∈ maps.sessions.entries, ∀ consoleName, consoleOf entry.2 = some consoleName →
    LookupReads cfg consoleName

/-- `resolve_access` raises on no session that the pass asks it about. -/
def AccessReturns (rt : Runtime) (userMap cfg : PyVal) (maps : Maps) : Prop :=
  ∀ entry ∈ maps.sessions.entries, ∀ consoleName, consoleOf entry.2 = some consoleName →
    ∀ defn vars, enforcementLookup cfg consoleName = .ok (some (defn, vars)) →
      ∃ level, resolveAccess rt userMap entry.2.username defn vars = .ok level

/-- The report names every session once, as killed or as retained, in the order of the
registry; the maps lose the killed ones and nothing else. -/
structure Parts (maps : Maps) (verdict : String × Session → Verdict) (report : Report) :
    Prop where
  killed : report.killed = (maps.sessions.entries.filter fun entry => (verdict entry).stale).map
    fun entry => describe entry.2 (verdict entry)
  retained : report.retained =
    (maps.sessions.entries.filter fun entry => !(verdict entry).stale).map
      fun entry => describe entry.2 (verdict entry)
  sessions : report.maps.sessions.entries =
    maps.sessions.entries.filter fun entry => !(verdict entry).stale
  socks : report.maps.socks.entries =
    maps.socks.entries.filter fun entry => entry.1 ∈ report.maps.sessions.keys
  keys : report.maps.sessions.keys = report.maps.socks.keys

def Partitioned (rt : Runtime) (userMap cfg : PyVal) (calls : String → SockCalls)
    (maps : Maps) : Prop :=
  maps.sessions.keys = maps.socks.keys ∧ ∃ report verdict,
    maps.killStale rt userMap cfg calls = .ok report ∧
      Judged rt userMap cfg maps.sessions.entries verdict ∧ Parts maps verdict report

section

variable {rt : Runtime} {userMap cfg : PyVal} {maps : Maps}

theorem check_returns_iff {session : Session}
    (haccess : ∀ consoleName, consoleOf session = some consoleName →
      ∀ defn vars, enforcementLookup cfg consoleName = .ok (some (defn, vars)) →
        ∃ level, resolveAccess rt userMap session.username defn vars = .ok level) :
    (∃ verdict, check rt userMap cfg session = .ok verdict) ↔
      ∀ consoleName, consoleOf session = some consoleName → LookupReads cfg consoleName := by
  cases hconsole : consoleOf session with
  | none => simp [check, hconsole]
  | some consoleName =>
      simp only [Option.some.injEq, forall_eq', ← enforcementLookup_returns_iff]
      constructor
      · rintro ⟨verdict, h⟩
        rcases check_console hconsole h with ⟨hlookup, -⟩ | ⟨defn, vars, level, hlookup, -⟩
        · exact ⟨_, hlookup⟩
        · exact ⟨_, hlookup⟩
      · rintro ⟨found, hfound⟩
        simp only [check, hconsole, hfound, bind, Except.bind]
        cases found with
        | none => exact ⟨_, rfl⟩
        | some found =>
            obtain ⟨level, hlevel⟩ := haccess consoleName hconsole found.1 found.2 hfound
            simp only [hlevel]
            cases level <;> exact ⟨_, rfl⟩

theorem parts_of_judged {verdict : String × Session → Verdict}
    (haligned : maps.sessions.keys = maps.socks.keys)
    (h : Judged rt userMap cfg maps.sessions.entries verdict) (calls : String → SockCalls) :
    ∃ report, maps.killStale rt userMap cfg calls = .ok report ∧ Parts maps verdict report := by
  refine ⟨_, killStale_eq h calls, rfl, rfl, ?_, ?_, ?_⟩
  · rw [Dict.entries_eraseMany]
    refine List.filter_congr fun entry hentry => ?_
    have hiff := @mem_staleIds_iff maps verdict entry hentry
    cases hstale : (verdict entry).stale <;> simp [hiff, hstale]
  · rw [Dict.entries_eraseMany]
    refine List.filter_congr fun entry hentry => ?_
    have hkey : entry.1 ∈ maps.sessions.keys := by
      rw [haligned]
      exact Dict.mem_keys_of_mem hentry
    simp [Dict.mem_keys_eraseMany, hkey]
  · rw [Dict.keys_eraseMany, Dict.keys_eraseMany, haligned]

/-- A pass over any registry that the methods can make parts its sessions exactly when
every console can be looked up. -/
theorem partitioned_iff (hreach : Maps.Reachable rt maps)
    (haccess : AccessReturns rt userMap cfg maps) (calls : String → SockCalls) :
    Partitioned rt userMap cfg calls maps ↔ LookupsRead cfg maps := by
  obtain ⟨reg, rfl⟩ := exists_registry hreach
  constructor
  · rintro ⟨-, report, verdict, -, hjudged, -⟩ entry hentry
    exact (check_returns_iff (haccess entry hentry)).mp ⟨_, hjudged entry hentry⟩
  · intro hreads
    have hjudged : Judged rt userMap cfg (Maps.ofRegistry reg).sessions.entries
        (verdictOf rt userMap cfg) := by
      intro entry hentry
      obtain ⟨verdict, hcheck⟩ :=
        (check_returns_iff (haccess entry hentry)).mpr (hreads entry hentry)
      rw [verdictOf, hcheck]
    obtain ⟨report, hreport, hparts⟩ := parts_of_judged reg.aligned hjudged calls
    exact ⟨reg.aligned, report, _, hreport, hjudged, hparts⟩

end

def bobMap : PyVal := .ofFields [
  ("users", .ofFields [("bob", .ofFields [("groups", .list [.str "allowed"])])])]

def bobAttached : Maps :=
  Maps.empty.add "s1" "bob" "console" ⟨false, false⟩ (some "lab02") false

theorem reachable_bobAttached : Maps.Reachable .plain bobAttached :=
  ⟨[.add "s1" "bob" "console" ⟨false, false⟩ (some "lab02") false], .cons rfl (.nil _)⟩

def definedLab : PyVal := .ofFields [("consoles", .ofFields [
  ("lab02", .ofFields [("ro", .list [.str "allowed"])])])]

theorem partitioned_iff_bob :
    Partitioned .plain bobMap definedLab (fun _ => ⟨true, true, true⟩) bobAttached := by
  refine (partitioned_iff reachable_bobAttached ?_ _).mpr ?_
  · intro entry hentry consoleName hconsole defn vars hlookup
    obtain rfl := List.mem_singleton.mp hentry
    cases hconsole
    cases hlookup
    exact ⟨_, rfl⟩
  · intro entry hentry consoleName hconsole
    obtain rfl := List.mem_singleton.mp hentry
    cases hconsole
    exact ⟨_, rfl, .inl ⟨_, rfl, rfl⟩⟩

/-- The console's definition has been blanked out, and there is a pattern. -/
def blankedLab : PyVal := .ofFields [
  ("consoles", .ofFields [("lab02", .none)]),
  ("console_patterns", .list [.ofFields [
    ("socket_glob", .str "/run/vnctlsd/vm-{name}.sock"), ("console_name", .str "vm-{name}"),
    ("type", .str "qemu_unix"), ("rw", .list [.str "allowed"])]])]

/-- `null` has no `get`: the pass raises, and the session is neither killed nor retained. -/
theorem blankedLab_parts_nothing : ∃ cfg, ConsoleConfigStore.update .plain blankedLab = .ok cfg ∧
    Maps.Reachable .plain bobAttached ∧ AccessReturns .plain bobMap cfg bobAttached ∧
      ¬ Partitioned .plain bobMap cfg (fun _ => ⟨true, true, true⟩) bobAttached := by
  refine ⟨_, rfl, reachable_bobAttached, ?_, ?_⟩
  · intro entry hentry consoleName hconsole defn vars hlookup
    obtain rfl := List.mem_singleton.mp hentry
    cases hconsole
    cases hlookup
  · rintro ⟨-, report, verdict, h, -⟩
    cases h

end Vnctlsd.SessionRegistry
