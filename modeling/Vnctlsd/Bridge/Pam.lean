import Vnctlsd.Library.Dialogue

/-! The verification of a password by PAM.  The library is a party that may ask
anything, any number of times, before it answers a call. -/
namespace Vnctlsd.Bridge.Pam
open Vnctlsd.Library

/-- The bytes before the terminator. -/
abbrev CStr := List UInt8

/-- What C reads of the bytes it is handed. -/
def cString (bytes : List UInt8) : CStr := bytes.takeWhile fun b => b != 0

def pamSuccess : Int := 0
def pamPromptEchoOff : Int := 1
def pamPromptEchoOn : Int := 2
def pamErrorMsg : Int := 3
def pamTextInfo : Int := 4

/-- `resp` is a copy on the heap or a null pointer. -/
structure Response where
  resp : Option CStr
  retcode : Int
  deriving DecidableEq

/-- The value of `conv_cb`, and the array if it sets one. -/
structure Reply where
  rc : Int
  responses : Option (List Response)
  deriving DecidableEq

/-- Which allocations of one call of `conv_cb` succeed: that of the array, and the copy
for the message at a place. -/
structure Alloc where
  calloc : Bool
  strdup : Nat → Bool

def Alloc.copy (alloc : Alloc) (i : Nat) (text : CStr) : Option CStr :=
  if alloc.strdup i then some text else none

/-- The loop of `conv_cb` from the message at place `i` on; `none` is its `return 1`. -/
def convLoop (alloc : Alloc) (u p : CStr) (i : Nat) : List Int → Option (List Response)
  | [] => some []
  | style :: rest =>
      if style = pamPromptEchoOff then
        (convLoop alloc u p (i + 1) rest).map fun others => ⟨alloc.copy i p, 0⟩ :: others
      else if style = pamPromptEchoOn then
        (convLoop alloc u p (i + 1) rest).map fun others => ⟨alloc.copy i u, 0⟩ :: others
      else if style = pamErrorMsg ∨ style = pamTextInfo then
        (convLoop alloc u p (i + 1) rest).map fun others => ⟨none, 0⟩ :: others
      else none

def convCb (alloc : Alloc) (u p : CStr) (styles : List Int) : Reply :=
  if !alloc.calloc then ⟨1, none⟩
  else
    match convLoop alloc u p 0 styles with
    | none => ⟨1, none⟩
    | some responses => ⟨pamSuccess, some responses⟩

/-- The library, with what it asks in `pam_authenticate` and `pam_acct_mgmt`. -/
structure LibPam where
  start : (service user : CStr) → Int
  authenticate : (service user : CStr) → Dialogue (List Int) Reply Int
  acctMgmt : (service user : CStr) → Dialogue (List Int) Reply Int

/-- A call of the library and what it returned; of `pam_end` the status it is given. -/
inductive Call where
  | pamStart (rc : Int)
  | pamAuthenticate (rc : Int)
  | pamAcctMgmt (rc : Int)
  | pamEnd (status : Int)
  deriving DecidableEq

structure Verification where
  ok : Bool
  calls : List Call
  exchanges : List (List Int × Reply)

/-- `_pam_verify`, which the server's `verify_credentials` repeats. -/
def pamVerify (pam : LibPam) (mem : Nat → Alloc) (username password service : List UInt8) :
    Verification :=
  let u := cString username
  let p := cString password
  let s := cString service
  let conv := fun n => convCb (mem n) u p
  let started := pam.start s u
  if started ≠ pamSuccess then ⟨false, [.pamStart started], []⟩
  else
    let auth := (pam.authenticate s u).play conv 0
    if auth.result ≠ pamSuccess then
      ⟨false, [.pamStart started, .pamAuthenticate auth.result, .pamEnd auth.result],
        auth.exchanges⟩
    else
      let acct := (pam.acctMgmt s u).play conv auth.exchanges.length
      ⟨acct.result = pamSuccess,
        [.pamStart started, .pamAuthenticate auth.result, .pamAcctMgmt acct.result,
          .pamEnd pamSuccess],
        auth.exchanges ++ acct.exchanges⟩

/-- A response tells what its prompt asked for: the password where nothing is echoed,
the user's name where it is, and nothing to a message. -/
def Fits (u p : CStr) (style : Int) (response : Response) : Prop :=
  ∀ text, response.resp = some text →
    style = pamPromptEchoOff ∧ text = p ∨ style = pamPromptEchoOn ∧ text = u

/-- One response for each message, or no array at all and the value of failure. -/
def Discreet (u p : CStr) (styles : List Int) (reply : Reply) : Prop :=
  match reply.responses with
  | none => reply.rc ≠ pamSuccess
  | some responses => reply.rc = pamSuccess ∧ List.Forall₂ (Fits u p) styles responses

theorem fits_copy {alloc : Alloc} {u p text : CStr} {style : Int} (i : Nat)
    (h : style = pamPromptEchoOff ∧ text = p ∨ style = pamPromptEchoOn ∧ text = u) :
    Fits u p style ⟨alloc.copy i text, 0⟩ := by
  intro copied hcopied
  simp only [Alloc.copy] at hcopied
  split at hcopied
  · cases hcopied
    exact h
  · cases hcopied

theorem fits_convLoop {alloc : Alloc} {u p : CStr} {styles : List Int} {i : Nat}
    {responses : List Response} (h : convLoop alloc u p i styles = some responses) :
    List.Forall₂ (Fits u p) styles responses := by
  induction styles generalizing i responses with
  | nil =>
      cases h
      exact .nil
  | cons style rest ih =>
      rw [convLoop] at h
      split at h
      · obtain ⟨others, hothers, rfl⟩ := Option.map_eq_some_iff.mp h
        exact .cons (fits_copy i (.inl ⟨‹_›, rfl⟩)) (ih hothers)
      · split at h
        · obtain ⟨others, hothers, rfl⟩ := Option.map_eq_some_iff.mp h
          exact .cons (fits_copy i (.inr ⟨‹_›, rfl⟩)) (ih hothers)
        · split at h
          · obtain ⟨others, hothers, rfl⟩ := Option.map_eq_some_iff.mp h
            exact .cons (fun _ h => nomatch h) (ih hothers)
          · cases h

theorem discreet_convCb (alloc : Alloc) (u p : CStr) (styles : List Int) :
    Discreet u p styles (convCb alloc u p styles) := by
  rw [convCb]
  split
  · exact (by decide : (1 : Int) ≠ pamSuccess)
  · split
    · exact (by decide : (1 : Int) ≠ pamSuccess)
    · exact ⟨rfl, fits_convLoop ‹_›⟩

def Call.isEnd : Call → Bool
  | .pamEnd _ => true
  | _ => false

/-- Whatever the library asks and answers and whatever allocations fail: the result is
`True` exactly where every call has succeeded, a handle that was begun is ended once
and last, and the secrets go only to the prompts that ask for them. -/
theorem pamVerify_spec (pam : LibPam) (mem : Nat → Alloc)
    (username password service : List UInt8) :
    let verification := pamVerify pam mem username password service
    (verification.ok = true ↔ verification.calls = [.pamStart pamSuccess,
      .pamAuthenticate pamSuccess, .pamAcctMgmt pamSuccess, .pamEnd pamSuccess]) ∧
    (if pam.start (cString service) (cString username) = pamSuccess then
        ∃ others status, verification.calls = others ++ [.pamEnd status] ∧
          ∀ call ∈ others, call.isEnd = false
      else ∀ call ∈ verification.calls, call.isEnd = false) ∧
    ∀ exchange ∈ verification.exchanges,
      Discreet (cString username) (cString password) exchange.1 exchange.2 := by
  have hdiscreet : ∀ n styles, Discreet (cString username) (cString password) styles
      (convCb (mem n) (cString username) (cString password) styles) :=
    fun n styles => discreet_convCb (mem n) _ _ styles
  dsimp only [pamVerify]
  by_cases hstart : pam.start (cString service) (cString username) = pamSuccess
  · rw [if_neg (not_not_intro hstart), if_pos hstart]
    split
    · rename_i hauth
      refine ⟨by simp, ⟨[_, _], _, rfl, by simp [Call.isEnd]⟩, ?_⟩
      exact Dialogue.forall_exchanges hdiscreet _ 0
    · rename_i hauth
      refine ⟨?_, ⟨[_, _, _], _, rfl, by simp [Call.isEnd]⟩, ?_⟩
      · simp [hstart, not_not.mp hauth]
      · exact List.forall_mem_append.mpr ⟨Dialogue.forall_exchanges hdiscreet _ 0,
          Dialogue.forall_exchanges hdiscreet _ _⟩
  · rw [if_pos hstart, if_neg hstart]
    refine ⟨by simp, by simp [Call.isEnd], ?_⟩
    exact fun exchange hmem => absurd hmem List.not_mem_nil

/-- `True` is the library's word on the account of that name. -/
theorem authenticated_of_ok {pam : LibPam} {mem : Nat → Alloc}
    {username password service : List UInt8}
    (h : (pamVerify pam mem username password service).ok = true) :
    ((pam.authenticate (cString service) (cString username)).play
      (fun n => convCb (mem n) (cString username) (cString password)) 0).result = pamSuccess := by
  by_contra hauth
  dsimp only [pamVerify] at h
  rw [if_pos hauth] at h
  split at h <;> cases h

/-- The library sees the names and the password as C strings only. -/
theorem pamVerify_congr (pam : LibPam) (mem : Nat → Alloc) {username other : List UInt8}
    (password service : List UInt8) (h : cString username = cString other) :
    pamVerify pam mem username password service = pamVerify pam mem other password service := by
  rw [pamVerify, pamVerify, h]

end Vnctlsd.Bridge.Pam
