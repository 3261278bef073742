import Vnctlsd.Bridge.AcceptLoop
import Vnctlsd.Bridge.Attempts
import Vnctlsd.Bridge.Pam
import Vnctlsd.Python.Utf8
import Vnctlsd.Python.Words
import Vnctlsd.Worker.LineInput

/-! The rate limiter counts by the name that the client typed, PAM verifies the
password of the account that the name is as a C string. -/
namespace Vnctlsd.Bridge.Aliases
open Vnctlsd.Library Vnctlsd.Library.Transition Vnctlsd.Python
open RateLimiter Attempts Pam Worker.SockReadline

/-- Another name of the user's account, as PAM sees it. -/
def nickname (user suffix : List Char) : List Char := user ++ '\x00' :: suffix

/-- A client can type the name, and nothing of it is stripped. -/
structure Fits (user suffix : List Char) : Prop where
  typed : Typed (Utf8.encode (nickname user suffix))
  length : (Utf8.encode (nickname user suffix)).length ≤ maxLine
  noNul : '\x00' ∉ user
  first : ∃ c rest, user = c :: rest ∧ Text.isSpace c = false
  last : ∀ c, suffix.getLast? = some c → Text.isSpace c = false

variable {user suffix : List Char}

theorem Fits.strip (h : Fits user suffix) :
    Text.strip (String.ofList (nickname user suffix)) = String.ofList (nickname user suffix) := by
  obtain ⟨c, rest, rfl, hc⟩ := h.first
  have hlast : ∀ d, (nickname (c :: rest) suffix).getLast? = some d → Text.isSpace d = false := by
    intro d hd
    rw [nickname, List.getLast?_append, List.getLast?_cons, Option.some_or] at hd
    cases hsuffix : suffix.getLast? with
    | none =>
        rw [hsuffix] at hd
        cases hd
        decide
    | some e =>
        rw [hsuffix] at hd
        cases hd
        exact h.last _ hsuffix
  refine Text.strip_eq_self (fun d hd => ?_) hlast
  cases hd
  exact hc

/-- The bridge takes the name as it was typed. -/
theorem Fits.nameRead (h : Fits user suffix) :
    AcceptLoop.nameRead Utf8.decode
        (readline true maxLine [] (Utf8.encode (nickname user suffix) ++ [0x0d])).result =
      .password (String.ofList (nickname user suffix)) [] := by
  obtain ⟨c, rest, huser, -⟩ := h.first
  have hne : nickname user suffix ≠ [] := by
    rw [nickname, huser]
    exact List.cons_ne_nil _ _
  have hname : String.ofList (nickname user suffix) ≠ "" := fun hempty =>
    hne (by rw [← String.toList_ofList (l := nickname user suffix), hempty]; rfl)
  have hlength : ([] : List UInt8).length + (Utf8.encode (nickname user suffix)).length ≤
      maxLine := by
    rw [List.length_nil, Nat.zero_add]
    exact h.length
  have hline := (readline_typed h.typed hlength true []).1
  rw [List.nil_append] at hline
  rw [hline, AcceptLoop.nameRead, if_neg (mt Utf8.encode_eq_nil_iff.mp hne), Utf8.decode_encode,
    h.strip, if_neg hname]

/-- PAM reads the account's own name. -/
theorem Fits.cString (h : Fits user suffix) :
    cString (Utf8.encode (nickname user suffix)) = cString (Utf8.encode user) := by
  have hzero : ∀ b ∈ Utf8.encode user, (b != 0) = true := by
    intro b hb
    apply bne_iff_ne.mpr
    rintro rfl
    exact Utf8.zero_notMem_encode h.noNul hb
  have hsplit : Utf8.encode (nickname user suffix) =
      Utf8.encode user ++ 0 :: Utf8.encode suffix := by
    rw [nickname, Utf8.encode, List.flatMap_append, List.flatMap_cons]
    rfl
  rw [hsplit, Pam.cString, Pam.cString, List.takeWhile_append_of_pos hzero]
  simp [List.takeWhile_eq_self_iff.mpr hzero]

/-- One login with a wrong password, the `i`th. -/
def wrongLogin (i : Nat) (username : String) : List Event :=
  [.ask username, .act i .check, .act i .start, .act i (.verified false), .act i .readClock,
    .act i .record]

variable {limits : Limits}

/-- Nothing stops a login under a name that is not on file. -/
theorem wrongLogin_run (limits : Limits) {world : World} {username : String}
    (hnew : world.limiter.get? username = none) :
    ∃ finish, Run (step limits) world (wrongLogin world.attempts.length username) finish ∧
      finish.now = world.now ∧ finish.starts = (username, world.now) :: world.starts ∧
      finish.limiter = recordFailure limits world.limiter world.now username := by
  have hopen : isLimited world.limiter world.now username = false := by
    rw [isLimited, hnew]
    rfl
  have hget : ∀ attempt : Attempt,
      (world.attempts ++ [attempt])[world.attempts.length]? = some attempt :=
    fun attempt => by rw [List.getElem?_append_right (Nat.le_refl _), Nat.sub_self]; rfl
  have hset : ∀ old new : Attempt, (world.attempts ++ [old]).set world.attempts.length new =
      world.attempts ++ [new] := fun old new => by
    rw [List.set_append_right _ _ (Nat.le_refl _), Nat.sub_self]
    rfl
  refine ⟨{ world with
    attempts := world.attempts ++ [.done]
    starts := (username, world.now) :: world.starts
    limiter := recordFailure limits world.limiter world.now username
    locks := if completes limits world.limiter world.now username then
        (username, world.now + limits.lockout) :: world.locks
      else world.locks }, run_of_exec ?_, rfl, rfl, rfl⟩
  simp only [exec, wrongLogin, step, hget, hset, Option.bind_some, attemptStep, hopen,
    Bool.false_eq_true, if_false]

theorem wrongLogins_run (limits : Limits) {names : List String} (hnodup : names.Nodup)
    {world : World} (hnew : ∀ name ∈ names, world.limiter.get? name = none) :
    ∃ events finish, Run (step limits) world events finish ∧ finish.now = world.now ∧
      finish.starts = (names.map fun name => (name, world.now)).reverse ++ world.starts ∧
      ∀ other, other ∉ names → finish.limiter.get? other = world.limiter.get? other := by
  induction names generalizing world with
  | nil => exact ⟨[], world, .nil world, rfl, rfl, fun _ _ => rfl⟩
  | cons name rest ih =>
      obtain ⟨hfresh, hnodup⟩ := List.nodup_cons.mp hnodup
      obtain ⟨hname, hrest⟩ := List.forall_mem_cons.mp hnew
      obtain ⟨next, hrun, hnow, hstarts, hlimiter⟩ := wrongLogin_run limits hname
      have hothers : ∀ other, other ≠ name →
          next.limiter.get? other = world.limiter.get? other := fun other hne => by
        rw [hlimiter, recordFailure, Dict.get?_set, if_neg hne]
      have hnew' : ∀ other ∈ rest, next.limiter.get? other = none := fun other hother => by
        rw [hothers other (fun heq => hfresh (heq ▸ hother))]
        exact hrest other hother
      obtain ⟨events, finish, hrun', hnow', hstarts', hkept⟩ := ih hnodup hnew'
      refine ⟨_, finish, hrun.append hrun', hnow'.trans hnow, ?_, fun other hother => ?_⟩
      · rw [hstarts', hnow, hstarts, List.map_cons, List.reverse_cons, List.append_assoc]
        rfl
      · rw [List.mem_cons, not_or] at hother
        rw [hkept other hother.2, hothers other hother.1]

theorem nickname_injective (user : List Char) :
    Function.Injective fun suffix => String.ofList (nickname user suffix) := by
  intro left right h
  have hnames := String.ofList_injective h
  exact List.cons_inj_right _ |>.mp (List.append_cancel_left hnames)

/-- The limiter does not bound the guesses at an account.  Whatever its limits, each
of the names that begin with the user's and go on behind a null byte gets its own
guess within one instant: all of them are verified by PAM against that user's password,
and of the user itself the limiter keeps nothing. -/
theorem nicknames_share_account (limits : Limits) (now : ℚ) {suffixes : List (List Char)}
    (hnodup : suffixes.Nodup) (hfits : ∀ suffix ∈ suffixes, Fits user suffix) :
    (∃ events finish, Run (step limits) (.start now) events finish ∧ finish.now = now ∧
      finish.starts = (suffixes.map fun suffix =>
        (String.ofList (nickname user suffix), now)).reverse ∧
      finish.limiter.get? (String.ofList user) = none) ∧
    ∀ suffix ∈ suffixes,
      AcceptLoop.nameRead Utf8.decode
          (readline true maxLine [] (Utf8.encode (nickname user suffix) ++ [0x0d])).result =
        .password (String.ofList (nickname user suffix)) [] ∧
      ∀ pam mem password service,
        pamVerify pam mem (Utf8.encode (nickname user suffix)) password service =
          pamVerify pam mem (Utf8.encode user) password service := by
  constructor
  · have hnames : (suffixes.map fun suffix => String.ofList (nickname user suffix)).Nodup :=
      hnodup.map (nickname_injective user)
    have hnew : ∀ name ∈ suffixes.map fun suffix => String.ofList (nickname user suffix),
        (World.start now).limiter.get? name = none := fun _ _ => rfl
    obtain ⟨events, finish, hrun, hnow, hstarts, hkept⟩ := wrongLogins_run limits hnames hnew
    refine ⟨events, finish, hrun, hnow, ?_, ?_⟩
    · rw [hstarts, List.map_map]
      exact List.append_nil _
    · rw [hkept]
      · rfl
      · intro hmem
        obtain ⟨suffix, -, heq⟩ := List.mem_map.mp hmem
        have hlength := congrArg List.length (String.ofList_injective heq)
        rw [nickname, List.length_append, List.length_cons] at hlength
        omega
  · intro suffix hsuffix
    exact ⟨(hfits suffix hsuffix).nameRead, fun pam mem password service =>
      pamVerify_congr pam mem password service (hfits suffix hsuffix).cString⟩

def aliceDigits : List (List Char) := [['1'], ['2'], ['3']]

theorem fits_aliceDigits : ∀ suffix ∈ aliceDigits, Fits "alice".toList suffix := by
  intro suffix hsuffix
  simp only [aliceDigits, List.mem_cons, List.not_mem_nil, or_false] at hsuffix
  rcases hsuffix with rfl | rfl | rfl
  all_goals
    refine ⟨fun b hb => ?_, by decide, by decide, ⟨'a', _, rfl, by decide⟩, ?_⟩
    · have hall := List.all_eq_true.mp (by decide : (Utf8.encode (nickname "alice".toList _)).all
        (fun b => !(b == 0x0d || b == 0x0a || b == 0x7f || b == 0x08 || b == 0x03)) = true) b hb
      simpa [not_or, and_assoc] using hall
    · intro c hc
      cases hc
      decide

/-- A limiter that locks at the first failure lets three guesses at once through. -/
theorem nicknames_share_account_alice :
    ∃ events finish, Run (step strict) (.start 0) events finish ∧ finish.starts.length = 3 ∧
      finish.limiter.get? "alice" = none := by
  obtain ⟨⟨events, finish, hrun, -, hstarts, hclean⟩, -⟩ :=
    nicknames_share_account strict 0 (by decide) fits_aliceDigits
  refine ⟨events, finish, hrun, ?_, hclean⟩
  rw [hstarts]
  rfl

end Vnctlsd.Bridge.Aliases
