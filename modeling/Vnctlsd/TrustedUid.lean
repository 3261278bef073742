import Vnctlsd.ConsoleConfigStore
import Vnctlsd.Validation

/-! The owner a socket must have: from the two places of the `trusted_uid` setting
to the check of the socket. -/
namespace Vnctlsd.TrustedUid
open Vnctlsd.Python ConsoleConfigStore Validation

def globalSetting (cfg : PyVal) : Py PyVal := do
  (← cfg.get "socket_validation" .emptyDict).get "trusted_uid" (.str "")

/-- The definition's own setting, or the one that stands in for it. -/
def ownSetting (defn standIn : PyVal) : Py PyVal := do
  (← defn.get "validation" .emptyDict).get "trusted_uid" standIn

/-- The setting in force: a definition's own one, even a blank one, replaces the
global one. -/
def settingInForce (cfg defn : PyVal) : Py PyVal := globalSetting cfg >>= ownSetting defn

/-- `trusted_uid` is set, globally or in the definition. -/
def IsSet (cfg defn : PyVal) : Prop :=
  (∃ value, globalSetting cfg = .ok value ∧ value.truthy = true) ∨
    ∃ value, ownSetting defn (.str "") = .ok value ∧ value.truthy = true

/-- The setting in force with the captured variables filled in. -/
def ExpandsTo (rt : Runtime) (cfg defn vars : PyVal) (name : String) : Prop :=
  ∃ value, settingInForce cfg defn = .ok value ∧ value.truthy = true ∧
    onKeyError (Format.formatStar rt value vars) (rt.str value) = .ok name

/-- The user id a name stands for: that of the user, or the number itself. -/
def uidOf (passwd : Passwd) (name : String) : Option Int :=
  match passwd name with
  | some uid => some uid
  | none => Text.int? name

def Denotes (rt : Runtime) (passwd : Passwd) (cfg defn vars : PyVal) (uid : Int) : Prop :=
  ∃ name, ExpandsTo rt cfg defn vars name ∧ uidOf passwd name = some uid

/-- With `trusted_uid` set, a socket is accepted only if its owner is the one the
setting denotes. -/
def FailsClosed (rt : Runtime) (passwd : Passwd) (cfg defn vars : PyVal) : Prop :=
  IsSet cfg defn → ∀ fs path trustedUid,
    resolveTrustedUid rt passwd cfg defn vars = .ok trustedUid →
    validateSocket fs path trustedUid = .ok none →
    ∃ name st uid, path = .str name ∧ fs name = .ok st ∧
      Denotes rt passwd cfg defn vars uid ∧ (st.uid : Int) = uid

/-- The setting in force is blank, or what it expands to is neither the name of a
user nor a number. -/
def Unresolvable (rt : Runtime) (passwd : Passwd) (cfg defn vars : PyVal) : Prop :=
  (∃ value, settingInForce cfg defn = .ok value ∧ value.truthy = false) ∨
    ∃ name, ExpandsTo rt cfg defn vars name ∧ '\x00' ∉ name.toList ∧ uidOf passwd name = none

theorem getpwnam_eq_ok_iff {passwd : Passwd} {name : String} {uid : Option Nat} :
    getpwnam passwd name = .ok uid ↔ '\x00' ∉ name.toList ∧ passwd name = uid := by
  unfold getpwnam
  by_cases hnul : '\x00' ∈ name.toList
  · simp [hnul, raise]
  · simp [hnul]

/-- How a resolution returns. -/
theorem resolveTrustedUid_eq_ok_iff {rt : Runtime} {passwd : Passwd} {cfg defn vars : PyVal}
    {result : Option Int} :
    resolveTrustedUid rt passwd cfg defn vars = .ok result ↔
      ((∃ value, settingInForce cfg defn = .ok value ∧ value.truthy = false) ∧ result = none) ∨
        ∃ name, ExpandsTo rt cfg defn vars name ∧ '\x00' ∉ name.toList ∧
          result = uidOf passwd name := by
  constructor
  · intro h
    obtain ⟨section', hsection, h⟩ := bind_eq_ok.mp h
    obtain ⟨standIn, hstandIn, h⟩ := bind_eq_ok.mp h
    obtain ⟨validation, hvalidation, h⟩ := bind_eq_ok.mp h
    obtain ⟨value, hvalue, h⟩ := bind_eq_ok.mp h
    have hinForce : settingInForce cfg defn = .ok value := by
      simp [settingInForce, globalSetting, ownSetting, hsection, hstandIn, hvalidation, hvalue,
        bind, Except.bind]
    cases htruthy : value.truthy with
    | false =>
        rw [htruthy] at h
        cases h
        exact .inl ⟨⟨value, hinForce, htruthy⟩, rfl⟩
    | true =>
        rw [htruthy] at h
        obtain ⟨name, hname, h⟩ := bind_eq_ok.mp h
        obtain ⟨uid, huid, h⟩ := bind_eq_ok.mp h
        obtain ⟨hnul, rfl⟩ := getpwnam_eq_ok_iff.mp huid
        right
        refine ⟨name, ⟨value, hinForce, htruthy, hname⟩, hnul, ?_⟩
        unfold uidOf
        cases hpasswd : passwd name with
        | none =>
            rw [hpasswd] at h
            exact (Except.ok.inj h).symm
        | some uid =>
            rw [hpasswd] at h
            exact (Except.ok.inj h).symm
  · rintro (⟨⟨value, hinForce, htruthy⟩, rfl⟩ |
      ⟨name, ⟨value, hinForce, htruthy, hname⟩, hnul, rfl⟩)
    · obtain ⟨standIn, hglobal, hown⟩ := bind_eq_ok.mp hinForce
      obtain ⟨section', hsection, hstandIn⟩ := bind_eq_ok.mp hglobal
      obtain ⟨validation, hvalidation, hvalue⟩ := bind_eq_ok.mp hown
      simp [resolveTrustedUid, hsection, hstandIn, hvalidation, hvalue, htruthy, bind, Except.bind,
        pure, Except.pure]
    · obtain ⟨standIn, hglobal, hown⟩ := bind_eq_ok.mp hinForce
      obtain ⟨section', hsection, hstandIn⟩ := bind_eq_ok.mp hglobal
      obtain ⟨validation, hvalidation, hvalue⟩ := bind_eq_ok.mp hown
      have hpasswd := getpwnam_eq_ok_iff.mpr ⟨hnul, (rfl : passwd name = passwd name)⟩
      simp only [resolveTrustedUid, hsection, hstandIn, hvalidation, hvalue, htruthy, hname,
        hpasswd, bind, Except.bind, pure, Except.pure, Bool.not_true, Bool.false_eq_true, if_false,
        uidOf]
      cases passwd name <;> rfl

theorem resolveTrustedUid_eq_none_iff {rt : Runtime} {passwd : Passwd} {cfg defn vars : PyVal} :
    resolveTrustedUid rt passwd cfg defn vars = .ok none ↔
      Unresolvable rt passwd cfg defn vars := by
  rw [resolveTrustedUid_eq_ok_iff]
  unfold Unresolvable
  constructor
  · rintro (⟨hblank, -⟩ | ⟨name, hname, hnul, hnone⟩)
    · exact .inl hblank
    · exact .inr ⟨name, hname, hnul, hnone.symm⟩
  · rintro (hblank | ⟨name, hname, hnul, hnone⟩)
    · exact .inl ⟨hblank, rfl⟩
    · exact .inr ⟨name, hname, hnul, hnone.symm⟩

theorem denotes_of_resolveTrustedUid {rt : Runtime} {passwd : Passwd} {cfg defn vars : PyVal}
    {uid : Int} (h : resolveTrustedUid rt passwd cfg defn vars = .ok (some uid)) :
    Denotes rt passwd cfg defn vars uid := by
  rcases resolveTrustedUid_eq_ok_iff.mp h with ⟨-, hnone⟩ | ⟨name, hname, -, hsome⟩
  · cases hnone
  · exact ⟨name, hname, hsome.symm⟩

theorem expandsTo_unique {rt : Runtime} {cfg defn vars : PyVal} {left right : String}
    (hleft : ExpandsTo rt cfg defn vars left) (hright : ExpandsTo rt cfg defn vars right) :
    left = right := by
  obtain ⟨value, hvalue, -, hleft⟩ := hleft
  obtain ⟨other, hother, -, hright⟩ := hright
  rw [hvalue] at hother
  cases hother
  rw [hleft] at hright
  exact Except.ok.inj hright

theorem not_denotes_of_unresolvable {rt : Runtime} {passwd : Passwd} {cfg defn vars : PyVal}
    (h : Unresolvable rt passwd cfg defn vars) (uid : Int) :
    ¬ Denotes rt passwd cfg defn vars uid := by
  rintro ⟨name, hname, huid⟩
  rcases h with ⟨value, hvalue, hblank⟩ | ⟨other, hother, -, hnone⟩
  · obtain ⟨value', hvalue', htruthy, -⟩ := hname
    rw [hvalue] at hvalue'
    cases hvalue'
    rw [hblank] at htruthy
    cases htruthy
  · rw [expandsTo_unique hother hname, huid] at hnone
    cases hnone

/-- Without an owner to check any socket will do. -/
theorem validateSocket_unowned (uid : Nat) :
    validateSocket (fun _ => .ok ⟨0o140755, uid⟩) (.str "/s") none = .ok none := by
  have hsock : isSock 0o140755 = true := by decide
  have hmode : otherWritable 0o140755 = false := by decide
  have hstat : lstat (fun _ => .ok ⟨0o140755, uid⟩) (.str "/s") =
      .ok (.ok ⟨0o140755, uid⟩) := rfl
  simp [validateSocket, hstat, socketDefect, hsock, hmode, bind, Except.bind, pure, Except.pure]

/-- The check fails closed exactly when the setting is not set at all, or the one in
force is not blank and its expansion, if there is one, names a user or is a
number. -/
theorem failsClosed_iff (rt : Runtime) (passwd : Passwd) (cfg defn vars : PyVal) :
    FailsClosed rt passwd cfg defn vars ↔
      (IsSet cfg defn → ¬ Unresolvable rt passwd cfg defn vars) := by
  constructor
  · intro h hset hunresolvable
    obtain ⟨name, st, uid, -, -, hdenotes, -⟩ := h hset _ _ none
      (resolveTrustedUid_eq_none_iff.mpr hunresolvable) (validateSocket_unowned 0)
    exact not_denotes_of_unresolvable hunresolvable uid hdenotes
  · intro h hset fs path trustedUid hresolve hvalid
    cases trustedUid with
    | none => exact absurd (resolveTrustedUid_eq_none_iff.mp hresolve) (h hset)
    | some uid =>
        obtain ⟨name, st, hpath, hfs, -, howner⟩ := validateSocket_passed hvalid
        exact ⟨name, st, uid, hpath, hfs, denotes_of_resolveTrustedUid hresolve, howner uid rfl⟩

def misspelledOwner : PyVal := .ofFields [("socket_validation", .ofFields [
  ("trusted_uid", .str "libvirt-qmeu")])]

/-- The user does not exist, and the check accepts a socket of anyone. -/
theorem misspelledOwner_fails_open :
    ¬ FailsClosed .plain (fun name => if name = "libvirt-qemu" then some 107 else none)
      misspelledOwner .emptyDict .emptyDict := by
  intro h
  have hset : IsSet misspelledOwner .emptyDict := .inl ⟨_, rfl, rfl⟩
  obtain ⟨name, st, uid, -, -, ⟨text, htext, huid⟩, -⟩ := h hset _ _ none (by decide)
    (validateSocket_unowned 1000)
  obtain ⟨value, hvalue, -, hexpand⟩ := htext
  cases hvalue
  have hsame : onKeyError (Format.formatStar .plain (.str "libvirt-qmeu") .emptyDict)
      "libvirt-qmeu" = .ok "libvirt-qmeu" := by decide
  cases hsame.symm.trans hexpand
  have hnone : uidOf (fun name => if name = "libvirt-qemu" then some 107 else none)
      "libvirt-qmeu" = none := by decide
  rw [hnone] at huid
  cases huid

end Vnctlsd.TrustedUid
