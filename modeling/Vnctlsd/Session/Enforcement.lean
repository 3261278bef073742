import Vnctlsd.Session.Registry
import Vnctlsd.Worker.ConsoleCommand

/-! What an enforcement pass leaves behind, and how its verdict on a session
compares with the answer the `console` command would give the same user. -/
namespace Vnctlsd.Enforcement
open Vnctlsd.Library Vnctlsd.Python GlobPatterns ConsoleConfigStore UserMapStore ACLResolver
open SessionRegistry Worker.ConsoleCommand

def heldLevel (session : Session) : Level :=
  if session.readOnly then .readOnly else .readWrite

/-- No session on a console holds more than the current policy gives its user. -/
def NoExcess (rt : Runtime) (userMap cfg : PyVal) (reg : Registry) : Prop :=
  ∀ sid session consoleName, (sid, session) ∈ reg.sessions.entries →
    consoleOf session = some consoleName →
    ∃ defn vars level, enforcementLookup cfg consoleName = .ok (some (defn, vars)) ∧
      resolveAccess rt userMap session.username defn vars = .ok (some level) ∧
      heldLevel session ≤ level

/-- The policy gives the user this level on the definition that enforcement finds
for the console. -/
def GrantedNow (rt : Runtime) (userMap cfg : PyVal) (username consoleName : String)
    (level : Level) : Prop :=
  ∃ defn vars, enforcementLookup cfg consoleName = .ok (some (defn, vars)) ∧
    resolveAccess rt userMap username defn vars = .ok (some level)

theorem check_stale_iff {rt : Runtime} {userMap cfg : PyVal} {session : Session}
    {verdict : Verdict} {consoleName : String} (hconsole : consoleOf session = some consoleName)
    (hcheck : check rt userMap cfg session = .ok verdict) :
    verdict.stale = false ↔
      ∃ level, GrantedNow rt userMap cfg session.username consoleName level := by
  rcases check_console hconsole hcheck with
    ⟨hlookup, rfl⟩ | ⟨defn, vars, granted, hlookup, haccess, rfl⟩
  · refine ⟨nofun, ?_⟩
    rintro ⟨level, defn, vars, hlookup', -⟩
    exact nomatch hlookup.symm.trans hlookup'
  · cases granted with
    | some level => exact ⟨fun _ => ⟨level, defn, vars, hlookup, haccess⟩, fun _ => rfl⟩
    | none =>
        refine ⟨nofun, ?_⟩
        rintro ⟨level, defn', vars', hlookup', haccess'⟩
        cases hlookup.symm.trans hlookup'
        exact nomatch haccess.symm.trans haccess'

theorem heldLevel_le_iff (session : Session) (level : Level) :
    heldLevel session ≤ level ↔ session.readOnly = true ∨ level = .readWrite := by
  cases hreadOnly : session.readOnly <;> cases level <;>
    simp only [heldLevel, hreadOnly] <;> decide

/-- Enforcement leaves a session on its console exactly if its user is granted
some level there, and leaves it as it was: a read-write session of a user who
may only watch by now is the one that holds more than is granted. -/
theorem killStale_retains_iff {rt : Runtime} {userMap cfg : PyVal}
    {calls : String → SockCalls} {reg : Registry} {result : Enforcement}
    (h : killStale rt userMap cfg calls reg = .ok result) (sid : String) {session : Session}
    {consoleName : String} (hconsole : consoleOf session = some consoleName) :
    ((sid, session) ∈ result.registry.sessions.entries ↔
      (sid, session) ∈ reg.sessions.entries ∧
        ∃ level, GrantedNow rt userMap cfg session.username consoleName level) ∧
    ((sid, session) ∈ result.registry.sessions.entries →
      result.registry.socks.get? sid = reg.socks.get? sid ∧
        ∀ level, GrantedNow rt userMap cfg session.username consoleName level →
          (heldLevel session ≤ level ↔ session.readOnly = true ∨ level = .readWrite)) := by
  obtain ⟨found, -, hstale, hregistry, -⟩ := killStale_spec h
  have hkept : (sid, session) ∈ result.registry.sessions.entries ↔
      (sid, session) ∈ reg.sessions.entries ∧ sid ∉ result.stale := by
    rw [hregistry, hstale]
    exact Dict.mem_eraseMany
  refine ⟨?_, fun hmem => ⟨?_, fun level _ => heldLevel_le_iff session level⟩⟩
  · rw [hkept]
    refine and_congr_right fun hmem => ?_
    obtain ⟨verdict, hcheck, hiff⟩ := killStale_stale_iff h hmem
    rw [hiff, Bool.not_eq_true]
    exact check_stale_iff hconsole hcheck
  · rw [hregistry, ← hstale] at *
    exact (Dict.get?_eraseMany ..).trans (if_neg (hkept.mp hmem).2)

def watchedLab : PyVal := .ofFields [("consoles", .ofFields [
  ("lab02", .ofFields [("ro", .list [.str "allowed"])])])]

def watchers : PyVal := .ofFields [
  ("users", .ofFields [("bob", .ofFields [("groups", .list [.str "allowed"])])]),
  ("groups", .ofFields [("allowed", .ofFields [("role", .str "read_only")])])]

def calm : String → SockCalls := fun _ => ⟨true, true, true⟩

def attachedBob : Registry :=
  add .empty "s1" "bob" "console" ⟨false, false⟩ (some "lab02") false

theorem mem_attachedBob :
    ("s1", ⟨"bob", "console", some "lab02", false⟩) ∈ attachedBob.sessions.entries :=
  List.mem_cons_self ..

theorem killStale_attachedBob :
    ∃ result, killStale .plain watchers watchedLab calm attachedBob = .ok result :=
  ⟨_, rfl⟩

theorem killStale_retains_iff_bob :
    ∃ result, killStale .plain watchers watchedLab calm attachedBob = .ok result ∧
    (("s1", ⟨"bob", "console", some "lab02", false⟩) ∈ result.registry.sessions.entries ↔
      ("s1", ⟨"bob", "console", some "lab02", false⟩) ∈ attachedBob.sessions.entries ∧
        ∃ level, GrantedNow .plain watchers watchedLab "bob" "lab02" level) ∧
    (("s1", ⟨"bob", "console", some "lab02", false⟩) ∈ result.registry.sessions.entries →
      result.registry.socks.get? "s1" = attachedBob.socks.get? "s1" ∧
        ∀ level, GrantedNow .plain watchers watchedLab "bob" "lab02" level →
          (Level.readWrite ≤ level ↔ false = true ∨ level = .readWrite)) := by
  obtain ⟨result, h⟩ := killStale_attachedBob
  exact ⟨result, h, killStale_retains_iff h "s1" rfl⟩

/-- The user may only watch by now, and the session stays read-write. -/
theorem killStale_keeps_excess :
    ∃ result, killStale .plain watchers watchedLab calm attachedBob = .ok result ∧
      ¬ NoExcess .plain watchers watchedLab result.registry := by
  refine ⟨_, rfl, ?_⟩
  intro h
  obtain ⟨defn, vars, level, hlookup, haccess, hexcess⟩ :=
    h "s1" ⟨"bob", "console", some "lab02", false⟩ "lab02" (List.mem_cons_self ..) rfl
  cases hlookup
  cases haccess
  exact absurd hexcess (by decide)

def Refused (rt : Runtime) (userMap cfg : PyVal) (username cname : String) : Prop :=
  consoleCommand rt userMap cfg username cname false false = .ok .notFound ∨
    consoleCommand rt userMap cfg username cname false false = .ok .denied

def Killed (rt : Runtime) (userMap cfg : PyVal) (calls : String → SockCalls) (reg : Registry)
    (sid : String) : Prop :=
  ∃ result, killStale rt userMap cfg calls reg = .ok result ∧ sid ∈ result.stale

def Explicit (cfg : PyVal) (cname : String) : Prop :=
  ∃ defn, explicitConsole cfg cname = .ok defn ∧ defn.isNone = false

def ChecksReturn (rt : Runtime) (userMap cfg : PyVal) (reg : Registry) : Prop :=
  ∀ entry ∈ reg.sessions.entries, ∃ verdict, check rt userMap cfg entry.2 = .ok verdict

/-- No explicit console, pattern or default backend has the name, or the one
that has it admits the user to nothing. -/
def NameRefuses (rt : Runtime) (userMap cfg : PyVal) (username cname : String) : Prop :=
  consoleLookup cfg cname false = .ok none ∨
    ∃ found, consoleLookup cfg cname false = .ok (some found) ∧
      decision rt userMap username found = .ok none

/-- The empty path is an instance of some pattern's `socket_glob`, and the first
such pattern admits the user. -/
def EmptyGlobAdmits (rt : Runtime) (userMap cfg : PyVal) (username : String) : Prop :=
  ∃ pats pat vars level, cfg.get "console_patterns" .emptyList = .ok pats ∧
    (pats.iter >>= matchSocketPattern (.str "")) = .ok (some (pat, vars)) ∧
    resolveAccess rt userMap username pat vars = .ok (some level)

theorem activate_admits {defn : PyVal} {level : Level} {hubLive : Bool} {outcome : Outcome}
    (h : activate defn level hubLive = .ok outcome) :
    outcome ≠ .notFound ∧ outcome ≠ .denied := by
  unfold activate at h
  cases hubLive with
  | true =>
      cases h
      exact ⟨nofun, nofun⟩
  | false =>
      cases hnone : defn.isNone with
      | true =>
          rw [hnone] at h
          cases h
          exact ⟨nofun, nofun⟩
      | false =>
          simp only [hnone, Bool.false_eq_true, if_false] at h
          obtain ⟨ctype, -, h⟩ := bind_eq_ok.mp h
          cases h
          split <;> exact ⟨nofun, nofun⟩

theorem refused_iff (rt : Runtime) (userMap cfg : PyVal) (username cname : String) :
    Refused rt userMap cfg username cname ↔ NameRefuses rt userMap cfg username cname := by
  cases hlookup : consoleLookup cfg cname false with
  | error e => simp [Refused, NameRefuses, consoleCommand, hlookup, bind, Except.bind]
  | ok found =>
      cases found with
      | none =>
          simp [Refused, NameRefuses, consoleCommand, hlookup, bind, Except.bind, pure, Except.pure]
      | some found =>
          cases hdecision : decision rt userMap username found with
          | error e =>
              simp [Refused, NameRefuses, consoleCommand, hlookup, hdecision, bind, Except.bind]
          | ok level =>
              cases level with
              | none =>
                  simp [Refused, NameRefuses, consoleCommand, hlookup, hdecision, bind,
                    Except.bind, pure, Except.pure]
              | some level =>
                  have hcommand : consoleCommand rt userMap cfg username cname false false =
                      activate found.1 level false := by
                    simp [consoleCommand, hlookup, hdecision, bind, Except.bind]
                  have hname : ¬ NameRefuses rt userMap cfg username cname := by
                    simp [NameRefuses, hlookup, hdecision]
                  simp only [Refused, hcommand, hname, iff_false]
                  rintro (h | h)
                  · exact (activate_admits h).1 rfl
                  · exact (activate_admits h).2 rfl

theorem scan_returns (rt : Runtime) (userMap cfg : PyVal) {sessions : List (String × Session)}
    (h : ∀ entry ∈ sessions, ∃ verdict, check rt userMap cfg entry.2 = .ok verdict) :
    ∃ found, scan rt userMap cfg sessions = .ok found := by
  induction sessions with
  | nil => exact ⟨_, rfl⟩
  | cons entry rest ih =>
      obtain ⟨verdict, hcheck⟩ := h entry (List.mem_cons_self ..)
      obtain ⟨others, hrest⟩ := ih fun entry hmem => h entry (List.mem_cons_of_mem _ hmem)
      simp only [scan, hcheck, hrest, bind, Except.bind]
      exact ⟨_, rfl⟩

theorem killStale_returns_iff (rt : Runtime) (userMap cfg : PyVal) (calls : String → SockCalls)
    (reg : Registry) :
    (∃ result, killStale rt userMap cfg calls reg = .ok result) ↔
      ChecksReturn rt userMap cfg reg := by
  constructor
  · rintro ⟨result, h⟩
    obtain ⟨found, hscan, -⟩ := killStale_spec h
    exact scan_checks rt userMap cfg hscan
  · intro h
    obtain ⟨found, hscan⟩ := scan_returns rt userMap cfg h
    simp only [killStale, hscan, bind, Except.bind]
    exact ⟨_, rfl⟩

theorem killed_iff (rt : Runtime) (userMap cfg : PyVal) (calls : String → SockCalls)
    {reg : Registry} {sid : String} {session : Session}
    (hmem : (sid, session) ∈ reg.sessions.entries) :
    Killed rt userMap cfg calls reg sid ↔ ChecksReturn rt userMap cfg reg ∧
      ∃ verdict, check rt userMap cfg session = .ok verdict ∧ verdict.stale = true := by
  constructor
  · rintro ⟨result, h, hstale⟩
    obtain ⟨verdict, hcheck, hiff⟩ := killStale_stale_iff h hmem
    exact ⟨(killStale_returns_iff ..).mp ⟨result, h⟩, verdict, hcheck, hiff.mp hstale⟩
  · rintro ⟨hreturns, verdict, hcheck, hstale⟩
    obtain ⟨result, h⟩ := (killStale_returns_iff rt userMap cfg calls reg).mpr hreturns
    obtain ⟨verdict', hcheck', hiff⟩ := killStale_stale_iff h hmem
    rw [hcheck] at hcheck'
    cases hcheck'
    exact ⟨result, h, hiff.mpr hstale⟩

theorem check_explicit {rt : Runtime} {userMap cfg defn : PyVal} {session : Session}
    {consoleName : String} (hconsole : consoleOf session = some consoleName)
    (hexplicit : explicitConsole cfg consoleName = .ok defn) (hsome : defn.isNone = false) :
    check rt userMap cfg session =
      (resolveAccess rt userMap session.username defn .emptyDict).map fun level =>
        level.elim .revoked .granted := by
  simp only [check, hconsole, enforcementLookup, hexplicit, hsome, bind, Except.bind, pure,
    Except.pure, Bool.not_false, if_true]
  cases resolveAccess rt userMap session.username defn .emptyDict with
  | error e => rfl
  | ok level => cases level <;> rfl

theorem nameRefuses_explicit {rt : Runtime} {userMap cfg defn : PyVal}
    {username consoleName : String} (hexplicit : explicitConsole cfg consoleName = .ok defn)
    (hsome : defn.isNone = false) :
    NameRefuses rt userMap cfg username consoleName ↔
      resolveAccess rt userMap username (defn.orElse .emptyDict) .emptyDict = .ok none := by
  have hlookup : consoleLookup cfg consoleName false = .ok (some (defn, .emptyDict)) := by
    simp [consoleLookup, hexplicit, hsome, bind, Except.bind, pure, Except.pure]
  simp [NameRefuses, hlookup, decision]

theorem stale_iff_nameRefuses_of_explicit {rt : Runtime} {userMap cfg : PyVal}
    {session : Session} {consoleName : String} {verdict : Verdict}
    (hconsole : consoleOf session = some consoleName) (hexplicit : Explicit cfg consoleName)
    (hcheck : check rt userMap cfg session = .ok verdict) :
    verdict.stale = true ↔ NameRefuses rt userMap cfg session.username consoleName := by
  obtain ⟨defn, hdefn, hsome⟩ := hexplicit
  rw [check_explicit hconsole hdefn hsome] at hcheck
  rw [nameRefuses_explicit hdefn hsome]
  cases haccess : resolveAccess rt userMap session.username defn .emptyDict with
  | error e => simp [haccess, Except.map] at hcheck
  | ok level =>
      rw [resolveAccess_orElse haccess]
      rw [haccess] at hcheck
      cases level with
      | none =>
          cases hcheck
          simp [Verdict.stale]
      | some level =>
          cases hcheck
          simp [Verdict.stale]

theorem socketOf_undefined {cfg sockPath : PyVal} {consoleName : String}
    (hexplicit : explicitConsole cfg consoleName = .ok .none)
    (h : socketOf cfg consoleName = .ok sockPath) : sockPath = .str "" := by
  obtain ⟨consoles, hconsoles, hexplicit⟩ := bind_eq_ok.mp hexplicit
  obtain ⟨entries, rfl⟩ := PyVal.eq_dict_of_get_ok hexplicit
  obtain ⟨consoles', hconsoles', h⟩ := bind_eq_ok.mp h
  obtain rfl := Except.ok.inj (hconsoles.symm.trans hconsoles')
  rw [PyVal.get_dict] at hexplicit
  rw [PyVal.get_dict] at h
  cases hentry : entries.lookup (.str consoleName) with
  | none =>
      rw [hentry] at h
      cases h
      rfl
  | some entry =>
      -- an explicit `null` has no `get`
      rw [hentry, Option.getD_some, Except.ok.injEq] at hexplicit
      rw [hentry, hexplicit] at h
      cases h

theorem matchSocketOf_undefined {cfg : PyVal} {consoleName : String}
    (hexplicit : explicitConsole cfg consoleName = .ok .none)
    {pats : List PyVal} {found : Option (PyVal × PyVal)}
    (h : matchSocketOf cfg consoleName pats = .ok found) :
    matchSocketPattern (.str "") pats = .ok found := by
  induction pats with
  | nil => exact h
  | cons pat rest ih =>
      obtain ⟨sockPath, hsocket, h⟩ := bind_eq_ok.mp h
      obtain rfl := socketOf_undefined hexplicit hsocket
      obtain ⟨present, hpresent, h⟩ := bind_eq_ok.mp h
      refine bind_eq_ok.mpr ⟨present, hpresent, ?_⟩
      cases present with
      | false => exact ih h
      | true =>
          obtain ⟨fnmatchPat, hfn, h⟩ := bind_eq_ok.mp h
          obtain ⟨regex, hregex, h⟩ := bind_eq_ok.mp h
          obtain ⟨vars, hglob, h⟩ := bind_eq_ok.mp h
          refine bind_eq_ok.mpr ⟨fnmatchPat, hfn, bind_eq_ok.mpr ⟨regex, hregex,
            bind_eq_ok.mpr ⟨vars, hglob, ?_⟩⟩⟩
          cases vars with
          | none => exact ih h
          | some vars => exact h

theorem enforcementLookup_undefined {cfg : PyVal} {consoleName : String}
    {found : Option (PyVal × PyVal)}
    (hexplicit : explicitConsole cfg consoleName = .ok .none)
    (h : enforcementLookup cfg consoleName = .ok found) :
    ∃ pats, cfg.get "console_patterns" .emptyList = .ok pats ∧
      (pats.iter >>= matchSocketPattern (.str "")) = .ok found := by
  obtain ⟨defn, hdefn, h⟩ := bind_eq_ok.mp h
  obtain rfl := Except.ok.inj (hexplicit.symm.trans hdefn)
  obtain ⟨pats, hpats, h⟩ := bind_eq_ok.mp h
  obtain ⟨items, hitems, h⟩ := bind_eq_ok.mp h
  exact ⟨pats, hpats, bind_eq_ok.mpr ⟨items, hitems, matchSocketOf_undefined hexplicit h⟩⟩

/-- A session on a console without a definition stays only by a pattern whose
`socket_glob` has the empty path among its instances. -/
theorem stale_iff_of_undefined {rt : Runtime} {userMap cfg : PyVal} {session : Session}
    {consoleName : String} {verdict : Verdict} (hconsole : consoleOf session = some consoleName)
    (hexplicit : explicitConsole cfg consoleName = .ok .none)
    (hcheck : check rt userMap cfg session = .ok verdict) :
    verdict.stale = true ↔ ¬ EmptyGlobAdmits rt userMap cfg session.username := by
  rcases check_console hconsole hcheck with
    ⟨hlookup, rfl⟩ | ⟨pat, vars, level, hlookup, haccess, rfl⟩
  · obtain ⟨pats, hpats, hmatch⟩ := enforcementLookup_undefined hexplicit hlookup
    refine ⟨?_, fun _ => rfl⟩
    rintro - ⟨pats', pat, vars, level, hpats', hmatch', -⟩
    obtain rfl := Except.ok.inj (hpats.symm.trans hpats')
    exact nomatch hmatch.symm.trans hmatch'
  · obtain ⟨pats, hpats, hmatch⟩ := enforcementLookup_undefined hexplicit hlookup
    cases level with
    | none =>
        refine ⟨?_, fun _ => rfl⟩
        rintro - ⟨pats', pat', vars', level, hpats', hmatch', haccess'⟩
        obtain rfl := Except.ok.inj (hpats.symm.trans hpats')
        cases hmatch.symm.trans hmatch'
        exact nomatch haccess.symm.trans haccess'
    | some level =>
        refine ⟨nofun, fun hnot => ?_⟩
        exact absurd ⟨pats, pat, vars, level, hpats, hmatch, haccess⟩ hnot

/-- A pattern that admits by the empty path has an empty `socket_glob`. -/
theorem emptyGlobAdmits_pattern {rt : Runtime} {userMap cfg : PyVal} {username : String}
    (h : EmptyGlobAdmits rt userMap cfg username) :
    ∃ pats items pat, cfg.get "console_patterns" .emptyList = .ok pats ∧
      pats.iter = .ok items ∧ pat ∈ items ∧ pat.item "_regex" = .ok (.pattern []) := by
  obtain ⟨pats, pat, vars, level, hpats, hmatch, -⟩ := h
  obtain ⟨items, hitems, hmatch⟩ := bind_eq_ok.mp hmatch
  obtain ⟨hmem, fnmatchPat, regex, -, hregex, hglob⟩ := matchSocketPattern_spec hmatch
  obtain ⟨atoms, found, rfl, hatoms, -⟩ := matchGlobPattern_spec hglob
  obtain rfl := matchAtoms_nil hatoms
  exact ⟨pats, items, pat, hpats, hitems, hmem, hregex⟩

/-- Enforcement and the command agree on every explicit console.  On any other
they agree only by refusing both, the odd empty `socket_glob` aside; and a pass
that raises kills nobody. -/
theorem killed_iff_refused_iff (rt : Runtime) (userMap cfg : PyVal)
    (calls : String → SockCalls) (reg : Registry) {sid : String} {session : Session}
    {consoleName : String} (hmem : (sid, session) ∈ reg.sessions.entries)
    (hconsole : consoleOf session = some consoleName) :
    (Killed rt userMap cfg calls reg sid ↔
        Refused rt userMap cfg session.username consoleName) ↔
      (ChecksReturn rt userMap cfg reg ∧
        (Explicit cfg consoleName ∨
          (NameRefuses rt userMap cfg session.username consoleName ↔
            ¬ EmptyGlobAdmits rt userMap cfg session.username))) ∨
      (¬ ChecksReturn rt userMap cfg reg ∧
        ¬ NameRefuses rt userMap cfg session.username consoleName) := by
  rw [refused_iff, killed_iff rt userMap cfg calls hmem]
  by_cases hreturns : ChecksReturn rt userMap cfg reg
  · obtain ⟨verdict, hcheck⟩ := hreturns _ hmem
    have hkilled : (ChecksReturn rt userMap cfg reg ∧ ∃ verdict,
        check rt userMap cfg session = .ok verdict ∧ verdict.stale = true) ↔
          verdict.stale = true := by
      constructor
      · rintro ⟨-, verdict', hcheck', hstale⟩
        rw [hcheck] at hcheck'
        cases hcheck'
        exact hstale
      · exact fun hstale => ⟨hreturns, verdict, hcheck, hstale⟩
    rw [hkilled]
    by_cases hexplicit : Explicit cfg consoleName
    · have hstale := stale_iff_nameRefuses_of_explicit hconsole hexplicit hcheck
      simp only [hreturns, hexplicit, hstale, true_or, and_self]
    · have hnone : explicitConsole cfg consoleName = .ok .none := by
        cases hdefn : explicitConsole cfg consoleName with
        | error e =>
            simp [check, hconsole, enforcementLookup, hdefn, bind, Except.bind] at hcheck
        | ok defn =>
            cases hisNone : defn.isNone with
            | false => exact absurd ⟨defn, hdefn, hisNone⟩ hexplicit
            | true => rw [(PyVal.isNone_eq_true_iff defn).mp hisNone]
      have hstale := stale_iff_of_undefined hconsole hnone hcheck
      simp only [hreturns, hexplicit, hstale, false_or, true_and, not_true, false_and, or_false]
      exact Iff.comm
  · simp only [hreturns, false_and, false_iff, not_false_iff, true_and, false_or]

theorem killed_iff_refused_iff_bob :
    (Killed .plain watchers watchedLab calm attachedBob "s1" ↔
        Refused .plain watchers watchedLab "bob" "lab02") ↔
      (ChecksReturn .plain watchers watchedLab attachedBob ∧
        (Explicit watchedLab "lab02" ∨
          (NameRefuses .plain watchers watchedLab "bob" "lab02" ↔
            ¬ EmptyGlobAdmits .plain watchers watchedLab "bob"))) ∨
      (¬ ChecksReturn .plain watchers watchedLab attachedBob ∧
        ¬ NameRefuses .plain watchers watchedLab "bob" "lab02") :=
  killed_iff_refused_iff .plain watchers watchedLab calm attachedBob mem_attachedBob rfl

def labPatterns : PyVal := .ofFields [("console_patterns", .list [.ofFields [
  ("socket_glob", .str "/run/vnctlsd/vm-{name}.sock"), ("console_name", .str "vm-{name}"),
  ("type", .str "qemu_unix"), ("rw", .list [.str "allowed"])]])]

def attachedToPattern : Registry :=
  add .empty "s1" "bob" "console" ⟨false, false⟩ (some "vm-lab01") false

/-- The pattern still admits the user, and the session is killed all the same. -/
theorem killStale_kills_admitted :
    ∃ cfg, update .plain labPatterns = .ok cfg ∧
      Killed .plain watchers cfg calm attachedToPattern "s1" ∧
      ¬ Refused .plain watchers cfg "bob" "vm-lab01" := by
  refine ⟨_, rfl, ⟨_, rfl, by decide⟩, ?_⟩
  rintro (h | h)
  · exact absurd h (by decide)
  · exact absurd h (by decide)

end Vnctlsd.Enforcement
