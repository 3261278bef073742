import Vnctlsd.Ipc.Framing

/-! The messages of the rpc channel: what the worker asks and what the monitor
answers, field by field as they are sent. -/
namespace Vnctlsd.Ipc
open Vnctlsd.Python

inductive Request where
  | lookupUid (uid : Int)
  | spawn (username consoleName : String)
  | runAction (action consoleName : String)
  deriving DecidableEq

def Request.fields : Request → List (Key × PyVal)
  | .lookupUid uid => [(.str "type", .str "PEERCRED_LOOKUP_REQ"), (.str "uid", .int uid)]
  | .spawn username consoleName => [(.str "type", .str "SPAWN_REQ"),
      (.str "username", .str username), (.str "console", .str consoleName)]
  | .runAction action consoleName => [(.str "type", .str "CMD_REQ"),
      (.str "action", .str action), (.str "console", .str consoleName)]

def Request.expectType : Request → String
  | .lookupUid _ => "PEERCRED_LOOKUP_RESP"
  | .spawn _ _ => "SPAWN_RESP"
  | .runAction _ _ => "CMD_RESP"

def Request.message (request : Request) (seq : PyVal) : PyVal :=
  .dict (PyVal.insertKey request.fields (.str "seq") seq)

def cmdResponse (rendered : String) (seq : PyVal) : List (Key × PyVal) :=
  [(.str "type", .str "CMD_RESP"), (.str "rendered", .str rendered), (.str "seq", seq)]

def spawnError (error : String) (seq : PyVal) : List (Key × PyVal) :=
  [(.str "type", .str "SPAWN_RESP"), (.str "ok", .bool false), (.str "error", .str error),
    (.str "seq", seq)]

def spawnOk (pid : Int) (seq : PyVal) : List (Key × PyVal) :=
  [(.str "type", .str "SPAWN_RESP"), (.str "ok", .bool true), (.str "pid", .int pid),
    (.str "seq", seq)]

def peercredResponse (username : Option String) (seq : PyVal) : List (Key × PyVal) :=
  [(.str "type", .str "PEERCRED_LOOKUP_RESP"),
    (.str "username", username.elim .none .str), (.str "seq", seq)]

structure Answers (request : Request) (seq reply : PyVal) : Prop where
  kind : reply.get "type" .none = .ok (.str request.expectType)
  number : reply.get "seq" .none = .ok seq

theorem answers_cmdResponse (action consoleName text : String) (seq : PyVal) :
    Answers (.runAction action consoleName) seq (.dict (cmdResponse text seq)) := ⟨rfl, rfl⟩

theorem answers_spawnError (username consoleName error : String) (seq : PyVal) :
    Answers (.spawn username consoleName) seq (.dict (spawnError error seq)) := ⟨rfl, rfl⟩

theorem answers_spawnOk (username consoleName : String) (pid : Int) (seq : PyVal) :
    Answers (.spawn username consoleName) seq (.dict (spawnOk pid seq)) := ⟨rfl, rfl⟩

theorem answers_peercredResponse (uid : Int) (username : Option String) (seq : PyVal) :
    Answers (.lookupUid uid) seq (.dict (peercredResponse username seq)) := ⟨rfl, rfl⟩

/-- The JSON text of an object of plain strings and numbers. -/
def flatValue : PyVal → List Char
  | .str s => '"' :: s.toList ++ ['"']
  | .int i => (toString i).toList
  | .bool b => (if b then "true" else "false").toList
  | _ => "null".toList

def flatFields : List (Key × PyVal) → List Char
  | [] => ['}']
  | (.str key, value) :: rest =>
      '"' :: key.toList ++ ['"', ':', ' '] ++ flatValue value ++
        (if rest.isEmpty then [] else [',', ' ']) ++ flatFields rest
  | _ :: rest => flatFields rest

def flatText (entries : List (Key × PyVal)) : List UInt8 :=
  ('{' :: flatFields entries).map fun c => .ofNat c.toNat

def flatCodec (reply : List (Key × PyVal)) : Codec where
  dumps msg := match msg with
    | .dict entries => .ok (flatText entries)
    | _ => raise .typeError "Object is not JSON serializable"
  loads payload := if payload = flatText reply then .ok (.dict reply)
    else raise .valueError "Expecting value: line 1 column 1 (char 0)"

end Vnctlsd.Ipc
