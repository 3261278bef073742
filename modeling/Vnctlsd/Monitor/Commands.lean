import Vnctlsd.ConsoleConfigStore
import Vnctlsd.Output
import Vnctlsd.Python.Shlex

/-! The CMD_REQ branch of the monitor: from the action and the console name the
worker sends to the text the client will see. -/
namespace Vnctlsd.Monitor
open Vnctlsd.Python ConsoleConfigStore Output

def isNameStart (c : Char) : Bool := c.isAlphanum
def isNameChar (c : Char) : Bool := c.isAlphanum || c == '_' || c == '-' || c == '.'

/-- `$` also matches before a newline that ends the string. -/
def dropFinalNewline (s : List Char) : List Char :=
  if s.getLast? = some '\n' then s.dropLast else s

def validateVmName (name : String) : Bool :=
  match name.toList with
  | [] => false
  | c :: rest =>
      let body := dropFinalNewline rest
      isNameStart c && body.all isNameChar && body.length ≤ 252

example : validateVmName "vm-lab01.example" = true := by decide
example : validateVmName "vm lab01" = false := by decide

/-- A filled template as a command line.  A missing field is reported to the
client; every other exception leaves the loop. -/
def commandLine (filled : Py String) : Py (Except String (List String)) :=
  match filled with
  | .ok text => do
      let cmd ← Shlex.split text
      pure (.ok cmd)
  | .error e => if e.kind = .keyError then .ok (.error e.text) else .error e

/-- The template lacks a field, or its text splits into words. -/
def Usable (filled : Py String) : Prop :=
  match filled with
  | .ok text => ∃ cmd, Shlex.split text = .ok cmd
  | .error e => e.kind = .keyError

theorem commandLine_returns_iff (filled : Py String) :
    (∃ line, commandLine filled = .ok line) ↔ Usable filled := by
  cases filled with
  | ok text =>
      simp only [commandLine, Usable, bind_eq_ok, pure, Except.pure, Except.ok.injEq]
      exact ⟨fun ⟨_, cmd, hcmd, _⟩ => ⟨cmd, hcmd⟩, fun ⟨cmd, hcmd⟩ => ⟨_, cmd, hcmd, rfl⟩⟩
  | error e =>
      by_cases hkey : e.kind = .keyError <;> simp [commandLine, Usable, hkey]

/-- How `subprocess.check_output` ends; the output is decoded. -/
inductive CommandOutcome where
  | completed (output : String)
  | calledProcessError (output : String)
  | failed (text : String)
  deriving DecidableEq

def CommandOutcome.raw : CommandOutcome → String
  | .completed output | .calledProcessError output => Text.strip output
  | .failed text => s!"ERROR: {text}"

def normalize (rt : Runtime) (raw : String) (fmt filterDef : PyVal) : Normalized :=
  match applyFilter rt raw fmt filterDef with
  | .ok normalized => normalized
  | .error _ => .string raw

structure Policy where
  rt : Runtime
  cfg : PyVal
  userMap : PyVal

abbrev CheckOutput := List String → CommandOutcome

def renderOutput (rt : Runtime) (cmdDef : PyVal) (raw : String) : Py String := do
  let fmt ← cmdDef.get "format" (.str "raw")
  let filterDef ← cmdDef.get "filter" .none
  pure (renderNormalized (normalize rt raw fmt filterDef))

def commandText (policy : Policy) (checkOutput : CheckOutput) (action consoleName : String) :
    Py String := do
  let cmdDef ← getCommand policy.cfg action
  if cmdDef.isNone then
    let shown := policy.rt.repr (.str action)
    return s!"✗ Unknown command: {shown}\r\n"
  if !validateVmName consoleName then return "✗ Invalid console name\r\n"
  let cmdTemplate ← cmdDef.get "cmd" (.str "")
  match ← commandLine (Format.format policy.rt cmdTemplate [("name", .str consoleName)]) with
  | .error missing => return s!"✗ Command template error: {missing}\r\n"
  | .ok cmd => renderOutput policy.rt cmdDef (checkOutput cmd).raw

def CommandReturns (policy : Policy) (action consoleName : String) : Prop :=
  ∃ cmdDef, getCommand policy.cfg action = .ok cmdDef ∧
    (cmdDef.isNone = false → validateVmName consoleName = true →
      ∃ cmdTemplate, cmdDef.get "cmd" (.str "") = .ok cmdTemplate ∧
        Usable (Format.format policy.rt cmdTemplate [("name", .str consoleName)]))

/-- Whatever the command prints and however it ends, a text comes out, once the
command line is there. -/
theorem commandText_returns_iff (policy : Policy) (checkOutput : CheckOutput)
    (action consoleName : String) :
    (∃ text, commandText policy checkOutput action consoleName = .ok text) ↔
      CommandReturns policy action consoleName := by
  constructor
  · rintro ⟨text, h⟩
    obtain ⟨cmdDef, hdef, h⟩ := bind_eq_ok.mp h
    refine ⟨cmdDef, hdef, fun hsome hvalid => ?_⟩
    simp only [hsome, hvalid, Bool.not_true, Bool.false_eq_true, if_false] at h
    obtain ⟨cmdTemplate, htemplate, h⟩ := bind_eq_ok.mp h
    obtain ⟨line, hline, -⟩ := bind_eq_ok.mp h
    exact ⟨cmdTemplate, htemplate, (commandLine_returns_iff _).mp ⟨line, hline⟩⟩
  · rintro ⟨cmdDef, hdef, h⟩
    cases hnone : cmdDef.isNone with
    | true =>
        simp [commandText, hdef, hnone, bind, Except.bind, pure, Except.pure]
    | false =>
        cases hvalid : validateVmName consoleName with
        | false =>
            simp [commandText, hdef, hnone, hvalid, bind, Except.bind, pure, Except.pure]
        | true =>
            obtain ⟨cmdTemplate, htemplate, husable⟩ := h hnone hvalid
            obtain ⟨line, hline⟩ := (commandLine_returns_iff _).mpr husable
            obtain ⟨entries, rfl⟩ := PyVal.eq_dict_of_get_ok htemplate
            cases line with
            | error missing =>
                simp [commandText, hdef, hnone, hvalid, htemplate, hline, bind, Except.bind,
                  pure, Except.pure]
            | ok cmd =>
                simp [commandText, renderOutput, hdef, hnone, hvalid, htemplate, hline, bind,
                  Except.bind, pure, Except.pure]

end Vnctlsd.Monitor
