import Vnctlsd.Worker.PushListener

/-! The worker's answer to a SOCKET_DISAPPEARED message, beside the announcement
of the same socket: both derive a console name from the configuration. -/
namespace Vnctlsd.Worker.Disappearance
open Vnctlsd.Python ConsoleConfigStore Validation Watcher PushListener

def disappearance (path : PyVal) : PyVal :=
  .ofFields [("type", .str "SOCKET_DISAPPEARED"), ("path", path)]

/-- The name under which the worker looks for the hub of a socket. -/
def disappearedName (rt : Runtime) (cfg path : PyVal) : Py (Option String) := do
  match ← matchSocket cfg path with
  | none => pure none
  | some (defn, vars) => do
      let template ← defn.get "console_name" (.str "")
      let name ← onKeyError (Format.formatStar rt template vars) (rt.str template)
      pure (some name)

/-- The hub that is shut down, if there is a live one of that name. -/
def socketDisappeared (rt : Runtime) (live : LiveHubs) (cfg msg : PyVal) : Py (Option Key) := do
  let path ← msg.get "path" (.str "")
  match ← disappearedName rt cfg path with
  | none => pure none
  | some name => pure (if live (.str name) then some (.str name) else none)

/-- The announcement and the disappearance of a socket are about the hub `name`,
and no other hub is shut down. -/
structure SameHub (rt : Runtime) (cfg path msg : PyVal) (name : String) : Prop where
  announced : msg.get "console_name" (.str "") = .ok (.str name)
  derived : disappearedName rt cfg path = .ok (some name)
  shutDown : ∀ live, socketDisappeared rt live cfg (disappearance path) =
    .ok (if live (.str name) then some (.str name) else none)

def HasName (defn : PyVal) : Prop := defn.contains "console_name" = .ok true

/-- The text the announcement takes for a definition without a name of its own
comes to nothing. -/
def StandInEmpty (rt : Runtime) (defn vars : PyVal) : Prop :=
  ∃ text, defn.get "_console_name" (.str "") = .ok text ∧
    onKeyError (Format.formatStar rt text vars) (rt.str text) = .ok ""

theorem socketDisappeared_eq {rt : Runtime} {cfg path : PyVal} {name : String}
    (h : disappearedName rt cfg path = .ok (some name)) (live : LiveHubs) :
    socketDisappeared rt live cfg (disappearance path) =
      .ok (if live (.str name) then some (.str name) else none) := by
  have hpath : (disappearance path).get "path" (.str "") = .ok path := rfl
  simp [socketDisappeared, hpath, h, bind, Except.bind, pure, Except.pure]

theorem format_empty (rt : Runtime) (fields : List (String × PyVal)) :
    Format.format rt (.str "") fields = .ok "" :=
  Format.format_literal rt "" fields (fun _ hmem => absurd hmem List.not_mem_nil)

/-- A template without variables comes to nothing only if it is empty. -/
theorem expand_noArgs_eq_empty_iff {rt : Runtime} {s : String} :
    onKeyError (Format.formatStar rt (.str s) .emptyDict) (rt.str (.str s)) = .ok "" ↔ s = "" := by
  constructor
  · intro h
    rcases onKeyError_eq_ok.mp h with hformat | ⟨e, -, -, hraw⟩
    · exact Format.formatStar_noArgs_eq_empty hformat
    · exact hraw
  · rintro rfl
    have hempty : Format.formatStar rt (.str "") .emptyDict = .ok "" := format_empty rt []
    rw [hempty]
    rfl

theorem kwargs_of_expand {rt : Runtime} {template vars : PyVal} {raw name : String}
    (h : onKeyError (Format.formatStar rt template vars) raw = .ok name) :
    ∃ fields, vars.kwargs = .ok fields := by
  cases template with
  | str s =>
      rcases onKeyError_eq_ok.mp h with hformat | ⟨e, hformat, hkind, -⟩
      · obtain ⟨fields, hfields, -⟩ := bind_eq_ok.mp hformat
        exact ⟨fields, hfields⟩
      · cases hfields : vars.kwargs with
        | ok fields => exact ⟨fields, rfl⟩
        | error other =>
            simp only [Format.formatStar, hfields, bind, Except.bind, Except.error.injEq] at hformat
            rw [← hformat, PyVal.kwargs_error hfields] at hkind
            cases hkind
  | none | bool | int | float | list | dict | pattern | date =>
      rcases onKeyError_eq_ok.mp h with hformat | ⟨e, hformat, hkind, -⟩
      · cases hformat
      · cases hformat
        cases hkind

theorem expand_empty {rt : Runtime} {vars : PyVal} {fields : List (String × PyVal)} (raw : String)
    (h : vars.kwargs = .ok fields) :
    onKeyError (Format.formatStar rt (.str "") vars) raw = .ok "" := by
  simp [Format.formatStar, h, format_empty, onKeyError, bind, Except.bind]

section

variable {rt : Runtime} {passwd : Passwd} {fs : FileSystem} {cfg path msg : PyVal}

/-- With a name of its own the definition is announced and looked up alike; without
one the worker takes the empty name. -/
theorem disappearedName_of_announced {entries published : List (Key × PyVal)} {vars : PyVal}
    {name : String} (h : Announced rt passwd fs cfg path msg entries published vars name) :
    (HasName (.dict entries) ∧ disappearedName rt cfg path = .ok (some name)) ∨
      (¬ HasName (.dict entries) ∧ disappearedName rt cfg path = .ok (some "") ∧
        (StandInEmpty rt (.dict entries) vars ↔ name = "")) := by
  obtain ⟨standIn, hstandIn, hnamed⟩ := bind_eq_ok.mp h.named
  obtain ⟨template, htemplate, hname⟩ := bind_eq_ok.mp hnamed
  rw [PyVal.get_dict, Except.ok.injEq] at htemplate
  cases hlookup : entries.lookup (.str "console_name") with
  | some own =>
      rw [hlookup, Option.getD_some] at htemplate
      subst htemplate
      left
      refine ⟨by simp [HasName, PyVal.contains, hlookup], ?_⟩
      simp [disappearedName, h.found, hlookup, hname, bind, Except.bind, pure, Except.pure]
  | none =>
      rw [hlookup, Option.getD_none] at htemplate
      subst htemplate
      obtain ⟨fields, hfields⟩ := kwargs_of_expand hname
      right
      refine ⟨by simp [HasName, PyVal.contains, hlookup], ?_, ?_⟩
      · simp [disappearedName, h.found, hlookup, expand_empty _ hfields, bind, Except.bind, pure,
          Except.pure]
      · constructor
        · rintro ⟨text, htext, hempty⟩
          rw [hstandIn] at htext
          cases htext
          rw [hname] at hempty
          exact Except.ok.inj hempty
        · rintro rfl
          exact ⟨standIn, hstandIn, hname⟩

/-- Appearance and disappearance are about one hub exactly when the definition has
a name of its own, or the text that stands in for it comes to nothing. -/
theorem sameHub_iff (h : handleAppeared rt passwd fs cfg path = .ok (some msg)) :
    (∃ name, SameHub rt cfg path msg name) ↔
      ∀ defn vars, matchSocket cfg path = .ok (some (defn, vars)) →
        HasName defn ∨ StandInEmpty rt defn vars := by
  obtain ⟨entries, published, vars, name, announced⟩ := handleAppeared_spec h
  have hannounced : msg.get "console_name" (.str "") = .ok (.str name) := by
    rw [announced.message]
    rfl
  have hcases := disappearedName_of_announced announced
  constructor
  · rintro ⟨other, same⟩ defn vars' hmatch
    rw [announced.found] at hmatch
    cases hmatch
    have hname := Except.ok.inj (hannounced.symm.trans same.announced)
    obtain rfl : name = other := PyVal.str.inj hname
    rcases hcases with ⟨hname, -⟩ | ⟨-, hderived, hempty⟩
    · exact .inl hname
    · rw [same.derived] at hderived
      exact .inr (hempty.mpr (by simpa using hderived))
  · intro hcondition
    have hderived : disappearedName rt cfg path = .ok (some name) := by
      rcases hcases with ⟨-, hderived⟩ | ⟨hunnamed, hderived, hempty⟩
      · exact hderived
      · rcases hcondition _ _ announced.found with hname | hstandIn
        · exact absurd hname hunnamed
        · rw [hempty.mp hstandIn, hderived]
    exact ⟨name, hannounced, hderived, socketDisappeared_eq hderived⟩

end

/-- For an explicit console the key stands in, and only the empty key comes to
nothing. -/
theorem standInEmpty_explicit_iff {rt : Runtime} {entries : List (Key × PyVal)} {key : String} :
    StandInEmpty rt (.dict (PyVal.insertKey entries (.str "_console_name") (.str key)))
        .emptyDict ↔ key = "" := by
  unfold StandInEmpty
  rw [PyVal.get_dict, PyVal.lookup_insertKey_self, Option.getD_some]
  constructor
  · rintro ⟨text, htext, hempty⟩
    cases htext
    exact expand_noArgs_eq_empty_iff.mp hempty
  · intro hkey
    exact ⟨_, rfl, expand_noArgs_eq_empty_iff.mpr hkey⟩

def labSockets : FileSystem := fun path =>
  if path = "/run/vnctlsd/lab01.sock" then .ok ⟨0o140755, 107⟩ else .error "[Errno 2] No such file"

def namedConsole : PyVal := .ofFields [("consoles", .ofFields [("lab01", .ofFields [
  ("type", .str "qemu_unix"), ("console_name", .str "lab01"),
  ("socket", .str "/run/vnctlsd/lab01.sock")])])]

theorem sameHub_iff_named :
    ∃ msg, handleAppeared .plain qemuPasswd labSockets namedConsole
        (.str "/run/vnctlsd/lab01.sock") = .ok (some msg) ∧
      ∃ name, SameHub .plain namedConsole (.str "/run/vnctlsd/lab01.sock") msg name := by
  have haccepted : ∃ msg, handleAppeared .plain qemuPasswd labSockets namedConsole
      (.str "/run/vnctlsd/lab01.sock") = .ok (some msg) := ⟨_, rfl⟩
  obtain ⟨msg, hmsg⟩ := haccepted
  refine ⟨msg, hmsg, (sameHub_iff hmsg).mpr ?_⟩
  intro defn vars hmatch
  cases hmatch
  exact .inl rfl

/-- An explicit console is announced under its key, and its socket disappears under
the empty name: the hub stays. -/
theorem qemuConsoles_hub_stays :
    ∃ msg, handleAppeared .plain qemuPasswd labSockets qemuConsoles
        (.str "/run/vnctlsd/lab01.sock") = .ok (some msg) ∧
      msg.get "console_name" (.str "") = .ok (.str "lab01") ∧
      disappearedName .plain qemuConsoles (.str "/run/vnctlsd/lab01.sock") = .ok (some "") ∧
      ¬ ∃ name, SameHub .plain qemuConsoles (.str "/run/vnctlsd/lab01.sock") msg name := by
  refine ⟨_, rfl, rfl, by decide, ?_⟩
  rintro ⟨name, same⟩
  have hname := same.announced
  have hderived := same.derived
  cases hname
  exact absurd hderived (by decide)

end Vnctlsd.Worker.Disappearance
