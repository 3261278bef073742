import Mathlib.Data.List.DropRight

/-! Go's strings as bytes: the functions of `strings`, `strconv` and `net` that the
client's proxy selection calls. -/
namespace Vnctlsd.Go

abbrev GoString := List UInt8

def dot : UInt8 := 0x2e
def comma : UInt8 := 0x2c
def slash : UInt8 := 0x2f
def colon : UInt8 := 0x3a
def opening : UInt8 := 0x5b
def closing : UInt8 := 0x5d

variable {s t : GoString} {b : UInt8}

/-- `strings.Trim(s, cutset)`; every cutset is ASCII. -/
def trim (cutset s : GoString) : GoString :=
  (s.dropWhile fun b => cutset.contains b).rdropWhile fun b => cutset.contains b

def trimPrefix (start s : GoString) : GoString :=
  if start.isPrefixOf s then s.drop start.length else s

def trimSuffix (ending s : GoString) : GoString :=
  if ending.isSuffixOf s then s.take (s.length - ending.length) else s

def lowerByte (b : UInt8) : UInt8 := if 0x41 ≤ b ∧ b ≤ 0x5a then b + 0x20 else b

/-- `strings.ToLower`; `mapLower` is `strings.Map(unicode.ToLower, s)`. -/
def toLower (mapLower : GoString → GoString) (s : GoString) : GoString :=
  if s.all (fun b => b < 0x80) then s.map lowerByte else mapLower s

/-- `strings.Split(s, ",")`. -/
def splitCommas (s : GoString) : List GoString := s.splitOn comma

/-- `strings.LastIndex` of a single byte; `none` is -1. -/
def lastIndex (b : UInt8) : GoString → Option Nat
  | [] => none
  | c :: rest =>
      match lastIndex b rest with
      | some i => some (i + 1)
      | none => if c = b then some 0 else none

/-- `strconv.Atoi`; `none` is an error. -/
def atoi (s : GoString) : Option Int :=
  let (negative, digits) := match s with
    | 0x2d :: rest => (true, rest)
    | 0x2b :: rest => (false, rest)
    | _ => (false, s)
  if digits.isEmpty || digits.any (fun b => b < 0x30 || 0x39 < b) then none
  else
    let value := digits.foldl (fun n b => 10 * n + (b.toNat - 0x30)) (0 : Nat)
    if negative then if value ≤ 0x8000000000000000 then some (-(value : Int)) else none
    else if value < 0x8000000000000000 then some value else none

/-- `net.SplitHostPort`; `none` is an error. -/
def splitHostPort (hostport : GoString) : Option (GoString × GoString) :=
  match lastIndex colon hostport with
  | none => none
  | some i =>
      let port := hostport.drop (i + 1)
      if hostport.head? = some opening then
        match hostport.idxOf? closing with
        | none => none
        | some stop =>
            if stop + 1 ≠ i then none
            else if (hostport.drop 1).contains opening then none
            else if (hostport.drop (stop + 1)).contains closing then none
            else some ((hostport.take stop).drop 1, port)
      else
        let host := hostport.take i
        if host.contains colon then none
        else if hostport.contains opening then none
        else if hostport.contains closing then none
        else some (host, port)

theorem mem_of_mem_trim {cutset : GoString} (h : b ∈ trim cutset s) : b ∈ s :=
  (List.dropWhile_suffix _).subset ((List.rdropWhile_prefix _ _).subset h)

theorem mem_dropWhile {p : UInt8 → Bool} (h : b ∈ s) (hb : p b = false) : b ∈ s.dropWhile p := by
  rw [← List.takeWhile_append_dropWhile (p := p) (l := s)] at h
  refine (List.mem_append.mp h).resolve_left fun htaken => ?_
  rw [List.mem_takeWhile_imp htaken] at hb
  cases hb

theorem mem_trim {cutset : GoString} (h : b ∈ s) (hb : b ∉ cutset) : b ∈ trim cutset s := by
  have hkept : cutset.contains b = false := by
    rw [List.contains_eq_mem, decide_eq_false hb]
  rw [trim, List.rdropWhile, List.mem_reverse]
  exact mem_dropWhile (List.mem_reverse.mpr (mem_dropWhile h hkept)) hkept

theorem trim_eq_self {cutset : GoString} (h : ∀ b ∈ s, b ∉ cutset) : trim cutset s = s := by
  have hkept (t : GoString) (ht : ∀ b ∈ t, b ∉ cutset) :
      t.dropWhile (fun b => cutset.contains b) = t := by
    cases t with
    | nil => rfl
    | cons c rest =>
        rw [List.dropWhile_cons_of_neg]
        rw [List.contains_iff_mem]
        exact ht c List.mem_cons_self
  rw [trim, hkept s h, List.rdropWhile, hkept _ fun b hb => h b (List.mem_reverse.mp hb),
    List.reverse_reverse]

theorem lastIndex_eq_none (h : b ∉ s) : lastIndex b s = none := by
  induction s with
  | nil => rfl
  | cons c rest ih =>
      rw [lastIndex, ih fun hmem => h (List.mem_cons_of_mem c hmem)]
      have hc : ¬ c = b := by
        rintro rfl
        exact h List.mem_cons_self
      exact if_neg hc

theorem lastIndex_append (h : b ∉ t) : lastIndex b (s ++ b :: t) = some s.length := by
  induction s with
  | nil =>
      rw [List.nil_append, lastIndex, lastIndex_eq_none h]
      exact if_pos rfl
  | cons c rest ih =>
      rw [List.cons_append, lastIndex, ih]
      rfl

theorem splitHostPort_eq_none (h : colon ∉ s) : splitHostPort s = none := by
  rw [splitHostPort, lastIndex_eq_none h]

/-- A byte that may stand on either side of the colon. -/
abbrev Plain (b : UInt8) : Prop := b ≠ colon ∧ b ≠ opening ∧ b ≠ closing

theorem notMem_of_plain {host port : GoString} {bracket : UInt8} (hcolon : bracket ≠ colon)
    (hhost : bracket ∉ host) (hport : bracket ∉ port) : bracket ∉ host ++ colon :: port := by
  intro h
  rcases List.mem_append.mp h with h | h
  · exact hhost h
  · rcases List.mem_cons.mp h with h | h
    · exact hcolon h
    · exact hport h

theorem splitHostPort_append {host port : GoString} (hhost : ∀ b ∈ host, Plain b)
    (hport : ∀ b ∈ port, Plain b) :
    splitHostPort (host ++ colon :: port) = some (host, port) := by
  have hopening : opening ∉ host ++ colon :: port :=
    notMem_of_plain (by decide) (fun h => (hhost _ h).2.1 rfl) fun h => (hport _ h).2.1 rfl
  have hclosing : closing ∉ host ++ colon :: port :=
    notMem_of_plain (by decide) (fun h => (hhost _ h).2.2 rfl) fun h => (hport _ h).2.2 rfl
  have hhead : (host ++ colon :: port).head? ≠ some opening :=
    fun hhead => hopening (List.mem_of_mem_head? hhead)
  have hdrop : (host ++ colon :: port).drop (host.length + 1) = port := by
    rw [← List.drop_drop, List.drop_left]
    rfl
  have habsent {b : UInt8} {s : GoString} (h : b ∉ s) : ¬ s.contains b = true :=
    mt List.contains_iff_mem.mp h
  rw [splitHostPort, lastIndex_append fun h => (hport _ h).1 rfl]
  dsimp only
  rw [if_neg hhead, List.take_left, if_neg (habsent fun h => (hhost _ h).1 rfl),
    if_neg (habsent hopening), if_neg (habsent hclosing), hdrop]

end Vnctlsd.Go
