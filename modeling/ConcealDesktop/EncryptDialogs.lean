import ConcealDesktop.Library.Loops
import ConcealDesktop.Text

/-! The password dialogs of MainWindow::encryptWallet. An encrypted wallet gets a new dialog for each
try and a rejected one ends the handler. A wallet without a password gets the same dialog again
while the flag of the last try is set, and rejecting the dialog does not clear the flag. -/
namespace ConcealDesktop.EncryptWallet
open Loops

/-- How a dialog is left. The dialog for a new password asks for no old one. -/
inductive Answer where
  | rejected
  | accepted (oldPassword newPassword : QString)
deriving DecidableEq

/-- Before a pass of a loop: the dialogs shown and the calls of changePassword made in the passes
before, and the flag that they have left. -/
structure Pass where
  shown : ℕ
  calls : ℕ
  error : Bool
deriving DecidableEq

def first : Pass := ⟨0, 0, false⟩

section Loops

variable (answers : ℕ → Answer) (changePassword : ℕ → QString → QString → Bool)

/-- The rest of a pass after a call of WalletAdapter::changePassword. -/
def Pass.tried (p : Pass) (changed : Bool) : Option Pass :=
  let error := !changed
  if error then some ⟨p.shown + 1, p.calls + 1, error⟩ else none

/-- A pass of the loop for a wallet with a password. -/
def changePasswordPass (p : Pass) : Option Pass :=
  match answers p.shown with
  | .rejected => none
  | .accepted oldPassword newPassword => p.tried (changePassword p.calls oldPassword newPassword)

/-- A pass of the loop for a wallet without one. -/
def newPasswordPass (p : Pass) : Option Pass :=
  match answers p.shown with
  | .accepted _ password =>
    if password = [] then none else p.tried (changePassword p.calls [] password)
  | .rejected => if p.error then some ⟨p.shown + 1, p.calls, p.error⟩ else none

def pass (isEncrypted : Bool) : Pass → Option Pass :=
  if isEncrypted then changePasswordPass answers changePassword
  else newPasswordPass answers changePassword

/-- MainWindow::encryptWallet: the pass in which dialog `k` is shown, if it is shown. The `n`-th call of
WalletAdapter::changePassword answers `changePassword n`. -/
def encryptWallet (isEncrypted : Bool) (k : ℕ) : Option Pass :=
  reached (pass answers changePassword isEncrypted) first k

def Shown (isEncrypted : Bool) (k : ℕ) : Prop :=
  (encryptWallet answers changePassword isEncrypted k).isSome = true

/-- The password is changed after dialog `k`. -/
def Changed (isEncrypted : Bool) (k : ℕ) : Prop :=
  ∃ p ∈ encryptWallet answers changePassword isEncrypted k, ∃ oldPassword newPassword,
    answers k = .accepted oldPassword newPassword ∧ (isEncrypted = true ∨ newPassword ≠ []) ∧
      changePassword p.calls (if isEncrypted then oldPassword else []) newPassword = true

/-- No dialog is shown after one that is rejected, or after a password has been changed. -/
structure NoneAfterEnd (isEncrypted : Bool) : Prop where
  rejected : ∀ k, Shown answers changePassword isEncrypted k → answers k = .rejected →
    ∀ j, k < j → ¬ Shown answers changePassword isEncrypted j
  changed : ∀ k, Changed answers changePassword isEncrypted k →
    ∀ j, k < j → ¬ Shown answers changePassword isEncrypted j

/-- Call `j` is made for the answer to dialog `j` and fails. -/
def Failed (j : ℕ) : Prop :=
  ∃ oldPassword password, answers j = .accepted oldPassword password ∧ password ≠ [] ∧
    changePassword j [] password = false

/-- A dialog is rejected after failed changes only, one or more of them. -/
def RejectedAfterFailures : Prop :=
  ∃ k, 1 ≤ k ∧ answers k = .rejected ∧ ∀ j < k, Failed answers changePassword j

end Loops

section Dialogs

variable {answers : ℕ → Answer} {changePassword : ℕ → QString → QString → Bool}
  {isEncrypted : Bool} {k : ℕ} {p : Pass}

theorem tried_true (p : Pass) : p.tried true = none := rfl

theorem tried_false (p : Pass) : p.tried false = some ⟨p.shown + 1, p.calls + 1, true⟩ := rfl

theorem encryptWallet_zero : encryptWallet answers changePassword isEncrypted 0 = some first := rfl

theorem encryptWallet_succ (k : ℕ) : encryptWallet answers changePassword isEncrypted (k + 1) =
    (encryptWallet answers changePassword isEncrypted k).bind
      (pass answers changePassword isEncrypted) := rfl

/-- Every pass that goes on has shown one dialog more. -/
theorem shown_eq (h : encryptWallet answers changePassword isEncrypted k = some p) :
    p.shown = k := by
  refine reached_invariant (I := fun n p => p.shown = n) rfl ?_ h
  rintro n t u rfl hu
  have htried {changed : Bool} (hu : t.tried changed = some u) : u.shown = t.shown + 1 := by
    cases changed with
    | true => cases hu
    | false =>
      cases hu
      rfl
  cases isEncrypted with
  | true =>
    change changePasswordPass answers changePassword t = some u at hu
    unfold changePasswordPass at hu
    split at hu
    · cases hu
    · exact htried hu
  | false =>
    change newPasswordPass answers changePassword t = some u at hu
    unfold newPasswordPass at hu
    split at hu
    · split_ifs at hu
      exact htried hu
    · split_ifs at hu
      cases hu
      rfl

/-- A handler that ends after a dialog shows no later one. -/
theorem not_shown_after (hp : encryptWallet answers changePassword isEncrypted k = some p)
    (hend : pass answers changePassword isEncrypted p = none) {j : ℕ} (hj : k < j) :
    ¬ Shown answers changePassword isEncrypted j := by
  obtain ⟨d, rfl⟩ : ∃ d, j = k + 1 + d := ⟨j - (k + 1), by omega⟩
  unfold Shown encryptWallet
  rw [reached_eq_none_of_left hp hend d]
  exact Bool.false_ne_true

theorem not_shown_of_changed (h : Changed answers changePassword isEncrypted k) {j : ℕ}
    (hj : k < j) : ¬ Shown answers changePassword isEncrypted j := by
  obtain ⟨p, hp, oldPassword, newPassword, hanswer, hgiven, hchanged⟩ := h
  refine not_shown_after hp ?_ hj
  have hshown : answers p.shown = .accepted oldPassword newPassword := by rw [shown_eq hp, hanswer]
  cases isEncrypted with
  | true =>
    rw [if_pos rfl] at hchanged
    show changePasswordPass answers changePassword p = none
    simp only [changePasswordPass, hshown, hchanged, tried_true]
  | false =>
    have hne : newPassword ≠ [] := hgiven.resolve_left Bool.false_ne_true
    rw [if_neg Bool.false_ne_true] at hchanged
    show newPasswordPass answers changePassword p = none
    simp only [newPasswordPass, hshown, if_neg hne, hchanged, tried_true]

theorem not_shown_of_rejected_encrypted (hshown : Shown answers changePassword true k)
    (hanswer : answers k = .rejected) {j : ℕ} (hj : k < j) :
    ¬ Shown answers changePassword true j := by
  obtain ⟨p, hp⟩ := Option.isSome_iff_exists.mp hshown
  refine not_shown_after hp ?_ hj
  show changePasswordPass answers changePassword p = none
  simp only [changePasswordPass, shown_eq hp, hanswer]

/-- Failed changes keep the dialog of a wallet without a password coming. -/
theorem encryptWallet_of_failed (h : ∀ j < k, Failed answers changePassword j) :
    encryptWallet answers changePassword false k = some ⟨k, k, decide (0 < k)⟩ := by
  induction k with
  | zero => rfl
  | succ k ih =>
    obtain ⟨oldPassword, password, hanswer, hne, hfailed⟩ := h k (Nat.lt_succ_self k)
    rw [encryptWallet_succ, ih fun j hj => h j (Nat.lt_succ_of_lt hj), Option.bind_some]
    show newPasswordPass answers changePassword ⟨k, k, decide (0 < k)⟩ = _
    simp only [newPasswordPass, hanswer, if_neg hne, hfailed, tried_false, Nat.zero_lt_succ,
      decide_true]

/-- There is no other way to a dialog than failed changes, unless one was rejected after them. -/
theorem failed_or_rejected (h : Shown answers changePassword false k) :
    (∀ j < k, Failed answers changePassword j) ∨ RejectedAfterFailures answers changePassword := by
  induction k with
  | zero => exact Or.inl fun j hj => absurd hj (Nat.not_lt_zero j)
  | succ k ih =>
    unfold Shown at h ih
    rw [encryptWallet_succ] at h
    cases hp : encryptWallet answers changePassword false k with
    | none =>
      rw [hp] at h
      cases h
    | some p =>
      rcases ih (by rw [hp]; rfl) with hfailed | hrejected
      · obtain rfl : p = ⟨k, k, decide (0 < k)⟩ :=
          Option.some.inj (hp.symm.trans (encryptWallet_of_failed hfailed))
        rw [hp, Option.bind_some] at h
        change (newPasswordPass answers changePassword ⟨k, k, decide (0 < k)⟩).isSome = true at h
        unfold newPasswordPass at h
        cases hanswer : answers k with
        | rejected =>
          -- the flag is set only after a failed change
          simp only [hanswer, decide_eq_true_eq] at h
          split_ifs at h with hpos
          · exact Or.inr ⟨k, hpos, hanswer, hfailed⟩
          · cases h
        | accepted oldPassword password =>
          simp only [hanswer] at h
          split_ifs at h with hempty
          · cases h
          · cases hchange : changePassword k [] password with
            | true =>
              rw [hchange] at h
              cases h
            | false =>
              apply Or.inl
              intro j hj
              rcases Nat.lt_succ_iff_lt_or_eq.mp hj with hlt | rfl
              · exact hfailed j hlt
              · exact ⟨oldPassword, password, hanswer, hempty, hchange⟩
      · exact Or.inr hrejected

/-- A rejected dialog ends the handler unless a change has failed before. -/
theorem not_shown_of_rejected (hnot : ¬ RejectedAfterFailures answers changePassword)
    (hshown : Shown answers changePassword false k) (hanswer : answers k = .rejected) {j : ℕ}
    (hj : k < j) : ¬ Shown answers changePassword false j := by
  have hfailed := (failed_or_rejected hshown).resolve_right hnot
  have hzero : k = 0 := by
    by_contra hne
    exact hnot ⟨k, Nat.pos_of_ne_zero hne, hanswer, hfailed⟩
  subst hzero
  refine not_shown_after encryptWallet_zero ?_ hj
  show newPasswordPass answers changePassword first = none
  simp only [newPasswordPass, first, hanswer, Bool.false_eq_true, if_false]

/-- The dialogs end as they should exactly when the wallet is encrypted already, or no dialog is
rejected after failed changes only. -/
theorem noneAfterEnd_iff (answers : ℕ → Answer) (changePassword : ℕ → QString → QString → Bool)
    (isEncrypted : Bool) :
    NoneAfterEnd answers changePassword isEncrypted ↔
      isEncrypted = true ∨ ¬ RejectedAfterFailures answers changePassword := by
  constructor
  · intro h
    cases isEncrypted with
    | true => exact Or.inl rfl
    | false =>
      apply Or.inr
      rintro ⟨k, hpos, hanswer, hfailed⟩
      have hk := encryptWallet_of_failed hfailed
      refine h.rejected k (by unfold Shown; rw [hk]; rfl) hanswer (k + 1) (Nat.lt_succ_self k) ?_
      unfold Shown
      rw [encryptWallet_succ, hk, Option.bind_some]
      show (newPasswordPass answers changePassword ⟨k, k, decide (0 < k)⟩).isSome = true
      have hflag : decide (0 < k) = true := decide_eq_true hpos
      simp only [newPasswordPass, hanswer, if_pos hflag, Option.isSome_some]
  · intro h
    refine ⟨fun k hshown hanswer j hj => ?_, fun k hchanged j hj => not_shown_of_changed hchanged hj⟩
    cases isEncrypted with
    | true => exact not_shown_of_rejected_encrypted hshown hanswer hj
    | false => exact not_shown_of_rejected (h.resolve_left Bool.false_ne_true) hshown hanswer hj

end Dialogs

/-- A new password that cannot be set, and then every dialog is rejected. -/
def givenUp : ℕ → Answer
  | 0 => .accepted [] (qstr "a")
  | _ + 1 => .rejected

/-- The dialog comes back however often it is rejected. -/
theorem givenUp_shown :
    (∀ k, Shown givenUp (fun _ _ _ => false) false k) ∧
      ¬ NoneAfterEnd givenUp (fun _ _ _ => false) false := by
  have hshown : ∀ k, encryptWallet givenUp (fun _ _ _ => false) false (k + 1) =
      some ⟨k + 1, 1, true⟩ := by
    intro k
    induction k with
    | zero => rfl
    | succ k ih =>
      rw [encryptWallet_succ, ih]
      rfl
  constructor
  · intro k
    unfold Shown
    cases k with
    | zero => rfl
    | succ k => rw [hshown, Option.isSome_some]
  · intro h
    refine h.rejected 1 ?_ rfl 2 (by decide) ?_
    · unfold Shown
      rw [hshown, Option.isSome_some]
    · unfold Shown
      rw [hshown, Option.isSome_some]

end ConcealDesktop.EncryptWallet
