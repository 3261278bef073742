import Mathlib.Data.List.Basic

/-! Ends of channels that processes open, inherit and close.  An end reads end of
file once no process has its peer open. -/
namespace Vnctlsd.Library.Endpoints

variable {Process : Type u} {End : Type v} [DecidableEq End]

/-- What a process does to its table of open ends until it settles down.  A fork
gives the child a copy of the table. -/
inductive Script (Process : Type u) (End : Type v) where
  | settle (process : Process)
  | opens (ends : List End) (rest : Script Process End)
  | closes (ends : List End) (rest : Script Process End)
  | fork (child rest : Script Process End)

def Script.tables : Script Process End → List End → List (Process × List End)
  | .settle process, table => [(process, table)]
  | .opens ends rest, table => rest.tables (table ++ ends)
  | .closes ends rest, table => rest.tables (table.filter fun e => e ∉ ends)
  | .fork child rest, table => child.tables table ++ rest.tables table

/-- What the processes of `tables` leave the reader of `e` with. -/
def eof (peer : End → Option End) (tables : List (List End)) (e : End) : Bool :=
  match peer e with
  | none => false
  | some other => tables.all fun table => decide (other ∉ table)

variable {peer : End → Option End} {tables : List (List End)} {e other : End}

theorem eof_iff (hpeer : peer e = some other) :
    eof peer tables e = true ↔ ∀ table ∈ tables, other ∉ table := by
  simp only [eof, hpeer, List.all_eq_true, decide_eq_true_eq]

/-- Who has both ends of a channel open never reads its end. -/
theorem eof_eq_false_of_mem {table : List End} (hpeer : peer e = some other)
    (htable : table ∈ tables) (hother : other ∈ table) : eof peer tables e = false :=
  Bool.eq_false_iff.mpr fun h => (eof_iff hpeer).mp h table htable hother

end Vnctlsd.Library.Endpoints
