import Vnctlsd.Session.Enforcement
import Vnctlsd.Worker.ConsoleSession

/-! What revocation does to the session itself: the state its socket is left
in, and what its client can still get through to the console. -/
namespace Vnctlsd.Revocation
open Vnctlsd.Library Vnctlsd.Library.Transition Vnctlsd.Python
open SessionRegistry Enforcement Worker.ConsoleSession

/-- A socket that is shut down, so that the session behind it passes on at most
what was queued before. -/
def CutOff (sock : Sock) : Prop :=
  sock.shut = true ∧ ∀ channel events finish, channel.sock = sock →
    Run step channel events finish → ∃ early, early <+: channel.queue ∧
      finish.written = channel.written ++ (decode channel.escape [] early).out

def AllCutOff (result : Enforcement) : Prop :=
  ∀ sid ∈ result.stale, ∃ sock, (sid, sock) ∈ result.dropped ∧ CutOff sock

theorem cutOff_iff (sock : Sock) : CutOff sock ↔ sock.shut = true := by
  refine ⟨fun h => h.1, fun hshut => ⟨hshut, ?_⟩⟩
  rintro channel events finish rfl hrun
  obtain ⟨data, h⟩ := passedOn_of_shut hrun hshut
  cases hmode : channel.readOnly with
  | true =>
      exact ⟨[], List.nil_prefix, by rw [h.unwritten hmode]; exact (List.append_nil _).symm⟩
  | false => exact ⟨data, ⟨finish.queue, h.queue.symm⟩, h.written hmode⟩

theorem dropped_spec {rt : Runtime} {userMap cfg : PyVal} {calls : String → SockCalls}
    {reg : Registry} {result : Enforcement}
    (h : killStale rt userMap cfg calls reg = .ok result) {sid : String}
    (hstale : sid ∈ result.stale) :
    ∃ sock, reg.socks.get? sid = some sock ∧
      ∀ left, (sid, left) ∈ result.dropped ↔ left = disconnect (calls sid) sock := by
  obtain ⟨found, hscan, hfound, -, hdropped⟩ := killStale_spec h
  rw [hfound] at hstale
  obtain ⟨session, verdict, hmem, -, -⟩ := (scan_spec rt userMap cfg hscan sid).mp hstale
  have hkey : sid ∈ reg.socks.keys := reg.aligned ▸ Dict.mem_keys_of_mem hmem
  obtain ⟨sock, hsock⟩ := Dict.exists_of_mem_keys hkey
  refine ⟨sock, hsock, fun left => ?_⟩
  rw [hdropped]
  constructor
  · intro hleft
    obtain ⟨other, -, hother⟩ := List.mem_filterMap.mp hleft
    obtain ⟨sock', hsock', heq⟩ := Option.map_eq_some_iff.mp hother
    obtain ⟨rfl, rfl⟩ := Prod.mk.inj heq
    rw [hsock] at hsock'
    cases hsock'
    rfl
  · rintro rfl
    exact List.mem_filterMap.mpr ⟨sid, hstale, by rw [hsock]; rfl⟩

/-- Revocation cuts off exactly the sessions whose notice and shutdown both
return, and those that were shut down already. -/
theorem allCutOff_iff {rt : Runtime} {userMap cfg : PyVal} {calls : String → SockCalls}
    {reg : Registry} {result : Enforcement}
    (h : killStale rt userMap cfg calls reg = .ok result) :
    AllCutOff result ↔ ∀ sid session verdict sock, (sid, session) ∈ reg.sessions.entries →
      check rt userMap cfg session = .ok verdict → verdict.stale = true →
      (sid, sock) ∈ reg.socks.entries →
      sock.shut = true ∨ ((calls sid).sendall = true ∧ (calls sid).shutdown = true) := by
  constructor
  · intro hcut sid session verdict sock hmem hcheck hverdict hsock
    obtain ⟨verdict', hcheck', hiff⟩ := killStale_stale_iff h hmem
    rw [hcheck] at hcheck'
    cases hcheck'
    have hstale := hiff.mpr hverdict
    obtain ⟨left, hleft, hcutoff⟩ := hcut sid hstale
    obtain ⟨sock', hsock', hdropped⟩ := dropped_spec h hstale
    rw [Dict.get?_eq_some_iff.mpr hsock] at hsock'
    cases hsock'
    rw [(hdropped left).mp hleft, cutOff_iff, disconnect_shut_iff] at hcutoff
    exact hcutoff
  · intro hcalls sid hstale
    obtain ⟨found, hscan, hfound, -, -⟩ := killStale_spec h
    obtain ⟨session, verdict, hmem, hcheck, hverdict⟩ :=
      (scan_spec rt userMap cfg hscan sid).mp (hfound ▸ hstale)
    obtain ⟨sock, hsock, hdropped⟩ := dropped_spec h hstale
    refine ⟨disconnect (calls sid) sock, (hdropped _).mpr rfl, ?_⟩
    rw [cutOff_iff, disconnect_shut_iff]
    exact hcalls sid session verdict sock hmem hcheck hverdict (Dict.get?_eq_some_iff.mp hsock)

def attachedCarol : Registry :=
  add .empty "s1" "carol" "console" ⟨false, false⟩ (some "lab02") false

theorem allCutOff_iff_carol :
    ∃ result, killStale .plain watchers watchedLab calm attachedCarol = .ok result ∧
      (AllCutOff result ↔ ∀ sid session verdict sock,
        (sid, session) ∈ attachedCarol.sessions.entries →
        check .plain watchers watchedLab session = .ok verdict → verdict.stale = true →
        (sid, sock) ∈ attachedCarol.socks.entries →
        sock.shut = true ∨ ((calm sid).sendall = true ∧ (calm sid).shutdown = true)) :=
  ⟨_, rfl, allCutOff_iff rfl⟩

/-- The client has closed its receiving side, so the notice fails; nothing is
shut down, and what is typed next still reaches the console. -/
theorem killStale_leaves_writer :
    ∃ result, killStale .plain watchers watchedLab (fun _ => ⟨false, true, true⟩) attachedCarol
        = .ok result ∧
      result.stale = ["s1"] ∧ result.dropped = [("s1", ⟨false, false⟩)] ∧ ¬ AllCutOff result ∧
      (exec step ⟨⟨false, false⟩, false, [], false, [], true⟩ [.send [0x69, 0x64], .recv 2]).map
        Channel.written = some [0x69, 0x64] := by
  refine ⟨_, rfl, rfl, rfl, ?_, rfl⟩
  intro h
  obtain ⟨sock, hsock, hcut⟩ := h "s1" (List.mem_cons_self ..)
  rw [List.mem_singleton.mp hsock |> Prod.mk.inj |>.2] at hcut
  exact absurd hcut.1 (by decide)

end Vnctlsd.Revocation
