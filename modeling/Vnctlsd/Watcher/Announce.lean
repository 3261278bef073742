import Vnctlsd.ConsoleConfigStore
import Vnctlsd.Validation

/-! What the watcher does with a socket that has appeared: it looks for the
definition, checks the owner, and announces the console to the worker. -/
namespace Vnctlsd.Watcher
open Vnctlsd.Python ConsoleConfigStore Validation

/-- The name a definition gives to a socket; a template that lacks a variable
stands for itself. -/
def consoleName (rt : Runtime) (defn vars : PyVal) : Py String := do
  let template ← defn.get "console_name" (← defn.get "_console_name" (.str ""))
  onKeyError (Format.formatStar rt template vars) (rt.str template)

/-- `{k: v for k, v in defn.items() if not k.startswith('_')}`. -/
def publicEntries : List (Key × PyVal) → Py (List (Key × PyVal))
  | [] => .ok []
  | entry :: rest =>
      match entry.1 with
      | .str key => do
          let others ← publicEntries rest
          pure (if key.toList.head? = some '_' then others else entry :: others)
      | other => (PyVal.ofKey other).noAttribute "startswith"

theorem lookup_publicEntries {entries published : List (Key × PyVal)} {key : String}
    (hkey : key.toList.head? ≠ some '_') (h : publicEntries entries = .ok published) :
    published.lookup (.str key) = entries.lookup (.str key) := by
  induction entries generalizing published with
  | nil =>
      cases h
      rfl
  | cons entry rest ih =>
      obtain ⟨entryKey, value⟩ := entry
      cases entryKey with
      | str name =>
          obtain ⟨others, hothers, h⟩ := bind_eq_ok.mp h
          cases h
          split
          · rename_i hprivate
            rw [ih hothers, List.lookup_cons]
            split
            · rename_i heq
              obtain rfl : key = name := by simpa using heq
              exact absurd hprivate hkey
            · rfl
          · rw [List.lookup_cons, List.lookup_cons, ih hothers]
      | none | int | float | pattern | date => cases h

def announcement (path : PyVal) (name : String) (entries : List (Key × PyVal))
    (vars : PyVal) : PyVal :=
  .ofFields [("type", .str "SOCKET_APPEARED"), ("path", path), ("console_name", .str name),
    ("defn", .dict entries), ("vars", vars)]

def handleAppeared (rt : Runtime) (passwd : Passwd) (fs : FileSystem) (cfg path : PyVal) :
    Py (Option PyVal) := do
  match ← matchSocket cfg path with
  | none => pure none
  | some (defn, vars) => do
      let trustedUid ← resolveTrustedUid rt passwd cfg defn vars
      match ← validateSocket fs path trustedUid with
      | some _ => pure none
      | none => do
          let name ← consoleName rt defn vars
          let entries ← publicEntries (← defn.items)
          pure (some (announcement path name entries vars))

structure Announced (rt : Runtime) (passwd : Passwd) (fs : FileSystem) (cfg path msg : PyVal)
    (entries published : List (Key × PyVal)) (vars : PyVal) (name : String) : Prop where
  found : matchSocket cfg path = .ok (some (.dict entries, vars))
  valid : ∃ trustedUid, resolveTrustedUid rt passwd cfg (.dict entries) vars = .ok trustedUid ∧
    validateSocket fs path trustedUid = .ok none
  named : consoleName rt (.dict entries) vars = .ok name
  stripped : publicEntries entries = .ok published
  message : msg = announcement path name published vars

theorem handleAppeared_spec {rt : Runtime} {passwd : Passwd} {fs : FileSystem}
    {cfg path msg : PyVal} (h : handleAppeared rt passwd fs cfg path = .ok (some msg)) :
    ∃ entries published vars name,
      Announced rt passwd fs cfg path msg entries published vars name := by
  obtain ⟨found, hmatch, h⟩ := bind_eq_ok.mp h
  cases found with
  | none => cases h
  | some found =>
      obtain ⟨defn, vars⟩ := found
      obtain ⟨trustedUid, htrusted, h⟩ := bind_eq_ok.mp h
      obtain ⟨verdict, hvalid, h⟩ := bind_eq_ok.mp h
      cases verdict with
      | some err => cases h
      | none =>
          obtain ⟨name, hname, h⟩ := bind_eq_ok.mp h
          obtain ⟨items, hitems, h⟩ := bind_eq_ok.mp h
          obtain ⟨published, hpublished, h⟩ := bind_eq_ok.mp h
          cases h
          cases defn with
          | dict entries =>
              cases hitems
              exact ⟨items, published, vars, name,
                hmatch, ⟨trustedUid, htrusted, hvalid⟩, hname, hpublished, rfl⟩
          | none | bool | int | float | str | list | pattern | date => cases hitems

end Vnctlsd.Watcher
