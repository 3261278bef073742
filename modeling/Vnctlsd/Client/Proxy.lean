import Vnctlsd.Go.Strings
import Vnctlsd.Python.Text

/-! The client's choice of a proxy: the `-proxy` flag, the environment, and the list of
hosts that are reached directly. -/
namespace Vnctlsd.Client.Proxy
open Vnctlsd.Go Vnctlsd.Python.Text

/-- Addresses, networks and lower case beyond ASCII, as the standard library has them. -/
structure Outside (Ip Network : Type) where
  parseIP : GoString → Option Ip
  parseCIDR : GoString → Option Network
  contains : Network → Ip → Bool
  mapLower : GoString → GoString

/-- `os.Getenv`: an unset variable is empty. -/
abbrev Env := String → GoString

def firstEnv (env : Env) : List String → GoString
  | [] => []
  | name :: names => if env name ≠ [] then env name else firstEnv env names

/-- The host, the port, and whether there is one. -/
def splitNoProxyHostPort (item : GoString) : GoString × GoString × Bool :=
  match splitHostPort item with
  | some (host, port) => (trim [opening, closing] host, port, true)
  | none =>
      match lastIndex colon item with
      | none => (item, [], false)
      | some lastColon =>
          if lastColon = 0 ∨ (item.take lastColon).contains colon then (item, [], false)
          else if (atoi (item.drop (lastColon + 1))).isNone then (item, [], false)
          else (item.take lastColon, item.drop (lastColon + 1), true)

variable {Ip Network : Type}

def normalHost (std : Outside Ip Network) (host : GoString) : GoString :=
  trim [dot] (toLower std.mapLower (trim [opening, closing] host))

/-- An item of the list without space, brackets and a final dot. -/
def normalItem (std : Outside Ip Network) (item : GoString) : GoString :=
  trimSuffix [dot] (trim [0x20, 0x09, opening, closing] (toLower std.mapLower item))

/-- The loop's body: does it return? -/
def itemMatches (std : Outside Ip Network) (host item : GoString) : Bool :=
  if item = [] then false
  else if item = ascii "*" then true
  else if item.contains slash then
    match std.parseIP host with
    | none => false
    | some ip =>
        match std.parseCIDR item with
        | none => false
        | some network => std.contains network ip
  else
    let (itemHost, itemPort, hasPort) := splitNoProxyHostPort item
    let portDiffers := match splitHostPort host with
      | none => true
      | some (_, hostPort) => hostPort != itemPort
    if hasPort && portDiffers then false
    else host == itemHost || (dot :: trimPrefix [dot] itemHost).isSuffixOf host

def noProxyMatch (std : Outside Ip Network) (host list : GoString) : Bool :=
  let host := normalHost std host
  if host = [] ∨ list = [] then false
  else (splitCommas list).any fun item => itemMatches std host (normalItem std item)

/-- The proxy and where it comes from; without a proxy the connection is direct. -/
def selectProxy (std : Outside Ip Network) (env : Env) (server explicitProxy : GoString) :
    GoString × String :=
  let host := match splitHostPort server with
    | some (host, _) => host
    | none => server
  if noProxyMatch std host (firstEnv env ["no_proxy", "NO_PROXY"]) then ([], "")
  else if explicitProxy ≠ [] then (explicitProxy, "-proxy")
  else if firstEnv env ["https_proxy", "HTTPS_PROXY"] ≠ [] then
    (firstEnv env ["https_proxy", "HTTPS_PROXY"], "HTTPS_PROXY")
  else if firstEnv env ["all_proxy", "ALL_PROXY"] ≠ [] then
    (firstEnv env ["all_proxy", "ALL_PROXY"], "ALL_PROXY")
  else ([], "")

def Direct (choice : GoString × String) : Prop := choice.1 = []

instance (choice : GoString × String) : Decidable (Direct choice) :=
  inferInstanceAs (Decidable (_ = _))

/-- A letter, a digit or a hyphen. -/
def isPortByte (b : UInt8) : Bool :=
  (0x30 ≤ b && b ≤ 0x39) || (0x41 ≤ b && b ≤ 0x5a) || (0x61 ≤ b && b ≤ 0x7a) || b == 0x2d

def isHostByte (b : UInt8) : Bool := isPortByte b || b == 0x5f || b == dot

/-- A DNS host with a port: a number or the name of a service. -/
structure Server where
  host : GoString
  port : GoString
  hostBytes : ∀ b ∈ host, isHostByte b = true
  portBytes : ∀ b ∈ port, isPortByte b = true
  named : ∃ b ∈ host, b ≠ dot

def Server.text (server : Server) : GoString := server.host ++ colon :: server.port

/-- Names and ports are compared in lower case, names without dots around them. -/
def Server.name (server : Server) : GoString := trim [dot] (server.host.map lowerByte)

def Server.lowerPort (server : Server) : GoString := server.port.map lowerByte

/-- The entries of the list of hosts without a proxy. -/
def entries (std : Outside Ip Network) (env : Env) : List GoString :=
  let list := firstEnv env ["no_proxy", "NO_PROXY"]
  if list = [] then [] else (splitCommas list).map (normalItem std)

/-- The host equals the domain or is a subdomain of it. -/
def Within (name domain : GoString) : Prop := name = domain ∨ dot :: domain <:+ name

instance (name domain : GoString) : Decidable (Within name domain) :=
  inferInstanceAs (Decidable (_ ∨ _))

/-- The same proxies are set, whatever the list is. -/
def SameProxies (env env' : Env) : Prop :=
  ∀ names ∈ [["https_proxy", "HTTPS_PROXY"], ["all_proxy", "ALL_PROXY"]],
    firstEnv env names = firstEnv env' names

/-- Entries with a port count: for the host with this port, and not for another one. -/
structure Honoured (std : Outside Ip Network) (env : Env) (explicitProxy : GoString)
    (server : Server) : Prop where
  same : ∀ domain, domain ++ colon :: server.lowerPort ∈ entries std env →
    Within server.name domain → Direct (selectProxy std env server.text explicitProxy)
  other : ∀ domain port before after env', (∀ b ∈ domain, isHostByte b = true) →
    (∀ b ∈ port, isPortByte b = true) → port ≠ server.lowerPort →
    entries std env = before ++ (domain ++ colon :: port) :: after →
    entries std env' = before ++ after → SameProxies env env' →
    selectProxy std env server.text explicitProxy = selectProxy std env' server.text explicitProxy

/-- An entry without a port that stands for the host: a star, a network with its
address, a domain. -/
def Covers (std : Outside Ip Network) (name entry : GoString) : Prop :=
  entry = ascii "*" ∨
    (slash ∈ entry ∧ ∃ ip network, std.parseIP name = some ip ∧
      std.parseCIDR entry = some network ∧ std.contains network ip = true) ∨
    (slash ∉ entry ∧ colon ∉ entry ∧ entry ≠ [] ∧
      (name = entry ∨ dot :: trimPrefix [dot] entry <:+ name))

/-- No proxy is set at all. -/
def Unproxied (env : Env) (explicitProxy : GoString) : Prop :=
  explicitProxy = [] ∧ firstEnv env ["https_proxy", "HTTPS_PROXY"] = [] ∧
    firstEnv env ["all_proxy", "ALL_PROXY"] = []

variable {std : Outside Ip Network} {env : Env} {explicitProxy : GoString} {server : Server}
  {name item : GoString}

theorem splitNoProxyHostPort_cases (item : GoString) :
    (splitNoProxyHostPort item).2.2 = true ∨ splitNoProxyHostPort item = (item, [], false) := by
  rw [splitNoProxyHostPort]
  split
  case h_1 => exact .inl rfl
  case h_2 =>
    split
    case h_1 => exact .inr rfl
    case h_2 =>
      split
      case isTrue => exact .inr rfl
      case isFalse =>
        split
        case isTrue => exact .inr rfl
        case isFalse => exact .inl rfl

theorem splitNoProxyHostPort_portless (h : colon ∉ item) :
    splitNoProxyHostPort item = (item, [], false) := by
  rw [splitNoProxyHostPort, splitHostPort_eq_none h, lastIndex_eq_none h]

theorem mem_trimPrefix_dot {b : UInt8} (h : b ∈ item) (hb : b ≠ dot) :
    b ∈ trimPrefix [dot] item := by
  cases item with
  | nil => cases h
  | cons c rest =>
      rw [trimPrefix]
      split
      case isFalse => exact h
      case isTrue hprefix =>
        have hc : c = dot := by
          have := (List.isPrefixOf_iff_prefix.mp hprefix)
          exact (List.cons_prefix_cons.mp this).1.symm
        exact (List.mem_cons.mp h).resolve_left fun hfirst => hb (hfirst.trans hc)

/-- What is left of the loop's body for a domain: the host has no port to compare. -/
theorem itemMatches_domain (hname : colon ∉ name) (hempty : item ≠ []) (hstar : item ≠ ascii "*")
    (hslash : slash ∉ item) :
    itemMatches std name item = (!(splitNoProxyHostPort item).2.2 &&
      (name == (splitNoProxyHostPort item).1 ||
        (dot :: trimPrefix [dot] (splitNoProxyHostPort item).1).isSuffixOf name)) := by
  have hcontains : ¬ item.contains slash = true := mt List.contains_iff_mem.mp hslash
  rw [itemMatches, if_neg hempty, if_neg hstar, if_neg hcontains, splitHostPort_eq_none hname]
  obtain ⟨itemHost, itemPort, hasPort⟩ := splitNoProxyHostPort item
  cases hasPort with
  | false => rfl
  | true => rfl

theorem ne_star_of_mem {b : UInt8} (h : b ∈ item) (hb : b ∉ ascii "*") : item ≠ ascii "*" := by
  rintro rfl
  exact hb h

/-- An entry with a port never matches. -/
theorem itemMatches_portEntry (hname : colon ∉ name) (hcolon : colon ∈ item)
    (hslash : slash ∉ item) : itemMatches std name item = false := by
  have hempty : item ≠ [] := List.ne_nil_of_mem hcolon
  have hstar : item ≠ ascii "*" := ne_star_of_mem hcolon (by decide)
  rw [itemMatches_domain hname hempty hstar hslash]
  rcases splitNoProxyHostPort_cases item with hport | hsplit
  · rw [hport]
    rfl
  · have hother : (name == item) = false := beq_false_of_ne fun heq => hname (heq ▸ hcolon)
    have hdomain : (dot :: trimPrefix [dot] item).isSuffixOf name = false := by
      rw [Bool.eq_false_iff, Ne, List.isSuffixOf_iff_suffix]
      intro hsuffix
      exact hname (hsuffix.subset
        (List.mem_cons_of_mem dot (mem_trimPrefix_dot hcolon (by decide))))
    rw [hsplit, hother, hdomain]
    rfl

theorem itemMatches_network (hslash : slash ∈ item) :
    itemMatches std name item = true ↔ ∃ ip network, std.parseIP name = some ip ∧
      std.parseCIDR item = some network ∧ std.contains network ip = true := by
  have hempty : item ≠ [] := List.ne_nil_of_mem hslash
  have hstar : item ≠ ascii "*" := ne_star_of_mem hslash (by decide)
  rw [itemMatches, if_neg hempty, if_neg hstar, if_pos (List.contains_iff_mem.mpr hslash)]
  cases hip : std.parseIP name with
  | none => simp
  | some ip =>
      cases hnetwork : std.parseCIDR item with
      | none => simp
      | some network => simp

theorem itemMatches_portless (hname : colon ∉ name) (hempty : item ≠ []) (hstar : item ≠ ascii "*")
    (hslash : slash ∉ item) (hcolon : colon ∉ item) :
    itemMatches std name item = true ↔
      name = item ∨ dot :: trimPrefix [dot] item <:+ name := by
  rw [itemMatches_domain hname hempty hstar hslash, splitNoProxyHostPort_portless hcolon]
  simp only [Bool.not_false, Bool.true_and, Bool.or_eq_true, beq_iff_eq,
    List.isSuffixOf_iff_suffix]

theorem itemMatches_iff (hname : colon ∉ name) :
    itemMatches std name item = true ↔ Covers std name item := by
  by_cases hempty : item = []
  · rw [hempty]
    refine iff_of_false (by rw [itemMatches, if_pos rfl]; exact Bool.false_ne_true) ?_
    rintro (hstar | ⟨hslash, _⟩ | ⟨_, _, hnonempty, _⟩)
    · exact absurd hstar (by decide)
    · cases hslash
    · exact hnonempty rfl
  by_cases hstar : item = ascii "*"
  · rw [itemMatches, if_neg hempty, if_pos hstar]
    exact iff_of_true rfl (.inl hstar)
  by_cases hslash : slash ∈ item
  · rw [itemMatches_network hslash]
    refine ⟨fun h => .inr (.inl ⟨hslash, h⟩), ?_⟩
    rintro (h | ⟨_, h⟩ | ⟨h, _⟩)
    · exact absurd h hstar
    · exact h
    · exact absurd hslash h
  by_cases hcolon : colon ∈ item
  · rw [itemMatches_portEntry hname hcolon hslash]
    refine iff_of_false Bool.false_ne_true ?_
    rintro (h | ⟨h, _⟩ | ⟨_, h, _⟩)
    · exact hstar h
    · exact hslash h
    · exact h hcolon
  · rw [itemMatches_portless hname hempty hstar hslash hcolon]
    refine ⟨fun h => .inr (.inr ⟨hslash, hcolon, hempty, h⟩), ?_⟩
    rintro (h | ⟨h, _⟩ | ⟨_, _, _, h⟩)
    · exact absurd h hstar
    · exact absurd h hslash
    · exact h

theorem isHostByte_spec : ∀ b, isHostByte b = true →
    b < 0x80 ∧ Plain b ∧ b ≠ slash ∧ lowerByte b ≠ colon ∧ (b ≠ dot → lowerByte b ≠ dot) :=
  forall_byte (by decide +kernel)

theorem isHostByte_of_isPortByte {b : UInt8} (h : isPortByte b = true) : isHostByte b = true := by
  rw [isHostByte, h]
  rfl

theorem splitHostPort_server (server : Server) :
    splitHostPort server.text = some (server.host, server.port) :=
  splitHostPort_append (fun b hb => (isHostByte_spec b (server.hostBytes b hb)).2.1)
    fun b hb => (isHostByte_spec b (isHostByte_of_isPortByte (server.portBytes b hb))).2.1

theorem normalHost_server (server : Server) : normalHost std server.host = server.name := by
  have hbrackets : trim [opening, closing] server.host = server.host := by
    refine trim_eq_self fun b hb => ?_
    obtain ⟨_, ⟨_, hopening, hclosing⟩, _⟩ := isHostByte_spec b (server.hostBytes b hb)
    rintro hmem
    rcases List.mem_cons.mp hmem with h | h
    · exact hopening h
    · exact hclosing (List.mem_singleton.mp h)
  have hascii : server.host.all (fun b => b < 0x80) = true :=
    List.all_eq_true.mpr fun b hb =>
      decide_eq_true (isHostByte_spec b (server.hostBytes b hb)).1
  rw [normalHost, hbrackets, toLower, if_pos hascii, Server.name]

theorem colon_notMem_name (server : Server) : colon ∉ server.name := by
  intro h
  obtain ⟨b, hb, hcolon⟩ := List.mem_map.mp (mem_of_mem_trim h)
  exact (isHostByte_spec b (server.hostBytes b hb)).2.2.2.1 hcolon

theorem name_ne_nil (server : Server) : server.name ≠ [] := by
  obtain ⟨b, hb, hdot⟩ := server.named
  have hlower : lowerByte b ∉ [dot] := by
    rw [List.mem_singleton]
    exact (isHostByte_spec b (server.hostBytes b hb)).2.2.2.2 hdot
  exact List.ne_nil_of_mem (mem_trim (List.mem_map_of_mem hb) hlower)

/-- The host is on the list exactly when an entry without a port covers it. -/
theorem noProxyMatch_iff :
    noProxyMatch std server.host (firstEnv env ["no_proxy", "NO_PROXY"]) = true ↔
      ∃ entry ∈ entries std env, Covers std server.name entry := by
  rw [noProxyMatch, normalHost_server, entries]
  by_cases hlist : firstEnv env ["no_proxy", "NO_PROXY"] = []
  · rw [if_pos (.inr hlist), if_pos hlist]
    simp
  · rw [if_neg fun h => h.elim (name_ne_nil server) hlist, if_neg hlist, List.any_eq_true]
    constructor
    · rintro ⟨item, hitem, hmatches⟩
      exact ⟨_, List.mem_map_of_mem hitem, (itemMatches_iff (colon_notMem_name server)).mp hmatches⟩
    · rintro ⟨entry, hentry, hcovers⟩
      obtain ⟨item, hitem, rfl⟩ := List.mem_map.mp hentry
      exact ⟨item, hitem, (itemMatches_iff (colon_notMem_name server)).mpr hcovers⟩

/-- `if spec != "" { return spec, source }`, and what follows. -/
theorem direct_ite {spec : GoString} {source : String} {rest : GoString × String} :
    Direct (if spec ≠ [] then (spec, source) else rest) ↔ spec = [] ∧ Direct rest := by
  by_cases hspec : spec = []
  · rw [if_neg (not_not_intro hspec)]
    exact (and_iff_right hspec).symm
  · rw [if_pos hspec]
    exact iff_of_false hspec fun h => hspec h.1

theorem direct_iff :
    Direct (selectProxy std env server.text explicitProxy) ↔
      (∃ entry ∈ entries std env, Covers std server.name entry) ∨
        Unproxied env explicitProxy := by
  rw [selectProxy, splitHostPort_server]
  dsimp only
  rw [← noProxyMatch_iff, Unproxied]
  split
  case isTrue hmatch => exact iff_of_true rfl (.inl hmatch)
  case isFalse hmatch =>
    rw [direct_ite, direct_ite, direct_ite, or_iff_right hmatch]
    have hnone : Direct ([], "") := rfl
    rw [and_iff_left hnone]

theorem not_covers_portEntry {domain port : GoString}
    (hdomain : ∀ b ∈ domain, isHostByte b = true) (hport : ∀ b ∈ port, isPortByte b = true) :
    ¬ Covers std name (domain ++ colon :: port) := by
  have hcolon : colon ∈ domain ++ colon :: port :=
    List.mem_append_right domain List.mem_cons_self
  have hslash : slash ∉ domain ++ colon :: port :=
    notMem_of_plain (by decide) (fun h => (isHostByte_spec _ (hdomain _ h)).2.2.1 rfl)
      fun h => (isHostByte_spec _ (isHostByte_of_isPortByte (hport _ h))).2.2.1 rfl
  rintro (hstar | ⟨h, _⟩ | ⟨_, h, _⟩)
  · exact ne_star_of_mem hcolon (by decide) hstar
  · exact hslash h
  · exact h hcolon

/-- The choice depends on the list only through what it covers. -/
theorem selectProxy_congr {env' : Env} (hproxies : SameProxies env env')
    (hcovers : (∃ entry ∈ entries std env, Covers std server.name entry) ↔
      ∃ entry ∈ entries std env', Covers std server.name entry) :
    selectProxy std env server.text explicitProxy =
      selectProxy std env' server.text explicitProxy := by
  have hmatch : noProxyMatch std server.host (firstEnv env ["no_proxy", "NO_PROXY"]) =
      noProxyMatch std server.host (firstEnv env' ["no_proxy", "NO_PROXY"]) := by
    rw [Bool.eq_iff_iff, noProxyMatch_iff, noProxyMatch_iff]
    exact hcovers
  have hhttps := hproxies ["https_proxy", "HTTPS_PROXY"] List.mem_cons_self
  have hall := hproxies ["all_proxy", "ALL_PROXY"]
    (List.mem_cons_of_mem _ (List.mem_singleton_self _))
  rw [selectProxy, selectProxy, splitHostPort_server]
  dsimp only
  rw [hmatch, hhttps, hall]

/-- An entry for another port, or for this one, changes nothing. -/
theorem selectProxy_drop {env' : Env} {domain port : GoString} {before after : List GoString}
    (hdomain : ∀ b ∈ domain, isHostByte b = true) (hport : ∀ b ∈ port, isPortByte b = true)
    (hentries : entries std env = before ++ (domain ++ colon :: port) :: after)
    (hdropped : entries std env' = before ++ after) (hproxies : SameProxies env env') :
    selectProxy std env server.text explicitProxy =
      selectProxy std env' server.text explicitProxy := by
  refine selectProxy_congr hproxies ?_
  rw [hentries, hdropped]
  simp only [List.mem_append, List.mem_cons]
  constructor
  · rintro ⟨entry, hbefore | rfl | hafter, hcovers⟩
    · exact ⟨entry, .inl hbefore, hcovers⟩
    · exact absurd hcovers (not_covers_portEntry hdomain hport)
    · exact ⟨entry, .inr hafter, hcovers⟩
  · rintro ⟨entry, hbefore | hafter, hcovers⟩
    · exact ⟨entry, .inl hbefore, hcovers⟩
    · exact ⟨entry, .inr (.inr hafter), hcovers⟩

/-- An entry with the port of the server counts only where the connection is direct
without it. -/
theorem honoured_iff (std : Outside Ip Network) (env : Env) (explicitProxy : GoString)
    (server : Server) :
    Honoured std env explicitProxy server ↔
      (¬ ∃ domain, domain ++ colon :: server.lowerPort ∈ entries std env ∧
        Within server.name domain) ∨
      Unproxied env explicitProxy ∨ ∃ entry ∈ entries std env, Covers std server.name entry := by
  constructor
  · intro h
    by_cases hentry : ∃ domain, domain ++ colon :: server.lowerPort ∈ entries std env ∧
        Within server.name domain
    · obtain ⟨domain, hmem, hwithin⟩ := hentry
      exact .inr (direct_iff.mp (h.same domain hmem hwithin)).symm
    · exact .inl hentry
  · intro h
    refine ⟨fun domain hmem hwithin => ?_, fun domain port before after env' hdomain hport _
      hentries hdropped hproxies => selectProxy_drop hdomain hport hentries hdropped hproxies⟩
    rcases h with h | h
    · exact absurd ⟨domain, hmem, hwithin⟩ h
    · exact direct_iff.mpr h.symm

/-- No name is an address, and ASCII is all there is. -/
def namesOnly : Outside Unit Unit := ⟨fun _ => none, fun _ => none, fun _ _ => false, id⟩

def target : Server where
  host := ascii "target.example.com"
  port := ascii "8443"
  hostBytes := List.all_eq_true.mp (by decide)
  portBytes := List.all_eq_true.mp (by decide)
  named := ⟨0x74, by decide, by decide⟩

/-- `HTTPS_PROXY` is set, and the list has the domain with the port of the server. -/
def officeEnv : Env
  | "HTTPS_PROXY" => ascii "http://proxy.example.com:8080"
  | "NO_PROXY" => ascii "localhost,Example.com:8443"
  | _ => []

theorem port_entry_ignored :
    ¬ Honoured namesOnly officeEnv [] target := by
  intro h
  have hdirect : Direct (selectProxy namesOnly officeEnv target.text []) :=
    h.same (ascii "example.com") (by decide) (by decide)
  exact absurd hdirect (by decide)

end Vnctlsd.Client.Proxy
