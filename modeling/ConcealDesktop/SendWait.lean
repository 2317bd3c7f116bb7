import ConcealDesktop.Library.EventSystem
import ConcealDesktop.Library.Separation

/-! The two Send handlers of OverviewFrame with the event loops that run inside them. A handler
that shows the password prompt or runs delay() is suspended; the events that its loop delivers
run to their own end, or to their own wait, before it goes on. -/
namespace ConcealDesktop.SendWait
open EventDriven

inductive Handler where
  | sendFunds
  | sendMessage
  deriving DecidableEq

/-- Where a suspended handler waits: in the modal dialog or in delay(). -/
inductive Stage where
  | passwordPrompt
  | delay
  deriving DecidableEq

/-- A handler that was entered and not left. It keeps the version of its form that it read, the
wallet whose balance it compared and the wallet that accepted the password. -/
structure Suspended where
  handler : Handler
  version : ℕ
  balanceOf : Option ℕ
  passwordOf : Option ℕ
  stage : Stage
  deriving DecidableEq

/-- A call of WalletAdapter::sendTransaction or WalletAdapter::sendMessage. -/
structure Submission where
  handler : Handler
  id : ℕ
  version : ℕ
  balanceOf : Option ℕ
  passwordOf : Option ℕ
  executedBy : ℕ
  deriving DecidableEq

inductive Entry where
  | submitted (s : Submission)
  | edited (h : Handler)
  | cleared (h : Handler) (completed : Option ℕ)
  deriving DecidableEq

/-- Wallets are numbered in the order in which they are opened, and submissions in the order in
which they are made. `portfolioOf` is the wallet whose balance m_actualBalance holds. -/
structure Gui where
  wallet : Option ℕ
  opened : ℕ
  portfolioOf : Option ℕ
  version : Handler → ℕ
  stack : List Suspended
  submissions : ℕ
  log : List Entry

inductive Event where
  | edit (h : Handler)
  /-- A click on Send; whether the checks before the password pass, and whether it prompts. -/
  | click (h : Handler) (checks prompt : Bool)
  | answer (accepted : Bool)
  /-- The end of the innermost wait; whether the checks after it pass. -/
  | endDelay (checks : Bool)
  /-- The completion of a submission, or of an operation that is not made here. -/
  | sendTransactionCompleted (id : Option ℕ) (error : Bool)
  | sendMessageCompleted (id : ℕ) (error : Bool)
  | updatePortfolio
  | closeWallet
  | openWallet
  deriving DecidableEq

def Gui.promptShown (s : Gui) : Bool :=
  s.stack.head?.any fun top => top.stage == .passwordPrompt

def Gui.inDelay (s : Gui) : Bool := s.stack.head?.any fun top => top.stage == .delay

/-- The dialog is modal, so the user reaches the form and the menus only when it is not shown.
An unencrypted wallet accepts the empty password without a prompt; without a wallet no
password is accepted. -/
def enabled (s : Gui) : Event → Prop
  | .edit _ => s.promptShown = false
  | .click _ _ prompt => s.promptShown = false ∧ (prompt = false → s.wallet.isSome)
  | .answer accepted => s.promptShown = true ∧ (accepted = true → s.wallet.isSome)
  | .endDelay _ => s.inDelay = true
  | .sendTransactionCompleted id _ => ∀ i ∈ id, i < s.submissions
  | .sendMessageCompleted id _ => id < s.submissions
  | .updatePortfolio => True
  | .closeWallet => s.promptShown = false ∧ s.wallet.isSome
  | .openWallet => s.promptShown = false ∧ s.wallet = none

instance (s : Gui) (e : Event) : Decidable (enabled s e) := by
  cases e <;> unfold enabled <;> infer_instance

/-- The form changes, by the user or by a handler that clears it. -/
def Gui.change (s : Gui) (h : Handler) (entry : Entry) : Gui :=
  { s with version := Function.update s.version h (s.version h + 1), log := entry :: s.log }

def enter (s : Gui) (h : Handler) (prompt : Bool) : Gui :=
  { s with stack :=
      { handler := h
        version := s.version h
        balanceOf := s.portfolioOf
        passwordOf := if prompt then none else s.wallet
        stage := if prompt then .passwordPrompt else .delay } :: s.stack }

/-- sendFundsClicked pays the form it read before the wait, sendMessageClicked reads it after. -/
def submit (s : Gui) (top : Suspended) (w : ℕ) : Gui :=
  let sent : Submission :=
    { handler := top.handler
      id := s.submissions
      version := if top.handler = .sendFunds then top.version else s.version top.handler
      balanceOf := top.balanceOf
      passwordOf := top.passwordOf
      executedBy := w }
  { s with submissions := s.submissions + 1, log := .submitted sent :: s.log }

/-- The rest of a handler after its wait. A message is checked only now. -/
def resume (s : Gui) (top : Suspended) (checks : Bool) : Gui :=
  match s.wallet with
  | none => s
  | some w => if top.handler = .sendFunds ∨ checks = true then submit s top w else s

def handle (s : Gui) : Event → Gui
  | .edit h => s.change h (.edited h)
  | .click h checks prompt => if checks then enter s h prompt else s
  | .answer accepted =>
    match s.stack with
    | [] => s
    | top :: outer =>
      if accepted then
        { s with stack := { top with passwordOf := s.wallet, stage := .delay } :: outer }
      else { s with stack := outer }
  | .endDelay checks =>
    match s.stack with
    | [] => s
    | top :: outer => resume { s with stack := outer } top checks
  | .sendTransactionCompleted id error =>
    if error then s else s.change .sendFunds (.cleared .sendFunds id)
  | .sendMessageCompleted id error =>
    if error then s else s.change .sendMessage (.cleared .sendMessage (some id))
  | .updatePortfolio => { s with portfolioOf := s.wallet }
  | .closeWallet => { s with wallet := none }
  | .openWallet => { s with wallet := some s.opened, opened := s.opened + 1 }

/-- A frame with one open wallet and its balance on show. -/
def system : EventSystem Gui Event where
  init := ⟨some 0, 1, some 0, fun _ => 0, [], 0, []⟩
  enabled := enabled
  handle := handle

instance (s : Gui) (e : Event) : Decidable (system.enabled s e) :=
  inferInstanceAs (Decidable (enabled s e))

/-- Two submissions made by the same handler. -/
def SameForm : Entry → Entry → Prop
  | .submitted later, .submitted earlier => later.handler = earlier.handler
  | _, _ => False

/-- The form of a submission is edited, or cleared by its own successful completion. -/
def Releases : Entry → Entry → Prop
  | .edited h, .submitted s => h = s.handler
  | .cleared h completed, .submitted s => h = s.handler ∧ completed = some s.id
  | _, _ => False

/-- Between two submissions of one form the form was edited, or cleared by the completion of the
first: no filled form is sent twice. -/
def NeverResent (s : Gui) : Prop := Separated SameForm Releases s.log

/-- Every submission is executed by the wallet that accepted the password and, when funds are
sent, whose balance was compared. -/
def ExecutedWhereChecked (s : Gui) : Prop :=
  ∀ sent, .submitted sent ∈ s.log → sent.passwordOf = some sent.executedBy ∧
    (sent.handler = .sendFunds → sent.balanceOf = some sent.executedBy)

def lastSubmission (h : Handler) : List Entry → Option ℕ
  | [] => none
  | .submitted s :: log => if s.handler = h then some s.id else lastSubmission h log
  | .edited _ :: log => lastSubmission h log
  | .cleared _ _ :: log => lastSubmission h log

/-- The form was edited after its last submission, or that submission completed and cleared it. -/
def Touched (h : Handler) : List Entry → Prop
  | [] => True
  | .submitted s :: log => s.handler ≠ h ∧ Touched h log
  | .edited h' :: log => h' = h ∨ Touched h log
  | .cleared h' completed :: log => (h' = h ∧ lastSubmission h log = completed) ∨ Touched h log

/-- A Send click that gets past its checks does not find its own handler waiting; its form was
touched since it was last sent, and the balance on show is that of the open wallet. No wallet is
opened during a wait. -/
def Undisturbed (s : Gui) : Event → Prop
  | .click h checks _ => checks = true →
      (∀ f ∈ s.stack, f.handler ≠ h) ∧ Touched h s.log ∧
        (h = .sendFunds → ∀ w ∈ s.wallet, s.portfolioOf = some w)
  | .openWallet => s.stack = []
  | _ => True

instance decidableTouched (h : Handler) : (log : List Entry) → Decidable (Touched h log)
  | [] => inferInstanceAs (Decidable True)
  | .submitted s :: log =>
    have := decidableTouched h log
    inferInstanceAs (Decidable (s.handler ≠ h ∧ Touched h log))
  | .edited h' :: log =>
    have := decidableTouched h log
    inferInstanceAs (Decidable (h' = h ∨ Touched h log))
  | .cleared h' completed :: log =>
    have := decidableTouched h log
    inferInstanceAs (Decidable ((h' = h ∧ lastSubmission h log = completed) ∨ Touched h log))

instance (s : Gui) (e : Event) : Decidable (Undisturbed s e) := by
  cases e <;> unfold Undisturbed <;> infer_instance

theorem lastSubmission_eq_some {h : Handler} {log : List Entry} {id : ℕ}
    (hl : lastSubmission h log = some id) :
    ∃ between last before, log = between ++ .submitted last :: before ∧ last.handler = h ∧
      last.id = id ∧ ∀ s, .submitted s ∈ between → s.handler ≠ h := by
  induction log with
  | nil => simp [lastSubmission] at hl
  | cons x log ih =>
    have skip (hx : ∀ s, x = .submitted s → s.handler ≠ h) (hl : lastSubmission h log = some id) :
        ∃ between last before, x :: log = between ++ .submitted last :: before ∧
          last.handler = h ∧ last.id = id ∧ ∀ s, .submitted s ∈ between → s.handler ≠ h := by
      obtain ⟨between, last, before, rfl, hh, hid, hb⟩ := ih hl
      refine ⟨x :: between, last, before, rfl, hh, hid, ?_⟩
      intro s hs
      rcases List.mem_cons.mp hs with hs | hs
      · exact hx s hs.symm
      · exact hb s hs
    cases x with
    | submitted s =>
      by_cases hs : s.handler = h
      · simp only [lastSubmission, hs, ↓reduceIte, Option.some.injEq] at hl
        exact ⟨[], s, log, rfl, hs, hl, by simp⟩
      · simp only [lastSubmission, hs, ↓reduceIte] at hl
        exact skip (fun t ht => by cases ht; exact hs) hl
    | edited _ => exact skip (by simp) hl
    | cleared _ _ => exact skip (by simp) hl

theorem lastSubmission_eq_none {h : Handler} {log : List Entry}
    (hl : lastSubmission h log = none) : ∀ s, .submitted s ∈ log → s.handler ≠ h := by
  induction log with
  | nil => simp
  | cons x log ih =>
    intro s hs
    cases x with
    | submitted t =>
      by_cases ht : t.handler = h
      · simp [lastSubmission, ht] at hl
      · simp only [lastSubmission, ht, ↓reduceIte] at hl
        rcases List.mem_cons.mp hs with hs | hs
        · cases hs; exact ht
        · exact ih hl s hs
    | edited _ => exact ih hl s (by simpa using hs)
    | cleared _ _ => exact ih hl s (by simpa using hs)

/-- Entries without a submission of the handler concern another form. -/
theorem not_sameForm {log : List Entry} {s : Submission}
    (hlog : ∀ t, .submitted t ∈ log → t.handler ≠ s.handler) {earlier : Entry}
    (he : earlier ∈ log) : ¬ SameForm (.submitted s) earlier := by
  intro hc
  cases earlier with
  | submitted t => exact hlog t he hc.symm
  | edited _ => exact hc
  | cleared _ _ => exact hc

/-- A touched form may be sent: every earlier submission of it has been released. -/
theorem mayFollow_of_touched {log : List Entry} (hsep : Separated SameForm Releases log)
    {s : Submission} (ht : Touched s.handler log) :
    MayFollow SameForm Releases (.submitted s) log := by
  induction log with
  | nil => exact mayFollow_nil _
  | cons x log ih =>
    cases x with
    | submitted t => exact (ih hsep.2 ht.2).cons fun hc => ht.1 hc.symm
    | edited h =>
      rcases ht with rfl | ht
      · apply MayFollow.of_release (by simp [SameForm])
        intro earlier _ hc
        cases earlier <;> simp_all [SameForm, Releases]
      · exact (ih hsep.2 ht).cons (by simp [SameForm])
    | cleared h completed =>
      rcases ht with ⟨rfl, hlast⟩ | ht
      · cases completed with
        | none =>
          apply MayFollow.of_release (by simp [SameForm])
          intro earlier he hc
          exact absurd hc (not_sameForm (lastSubmission_eq_none hlast) he)
        | some id =>
          obtain ⟨between, last, before, rfl, hh, hid, hb⟩ := lastSubmission_eq_some hlast
          refine hsep.2.mayFollow_of_last ?_ ?_ (by simp [SameForm]) ⟨hh.symm, by rw [hid]⟩
          · intro earlier hc
            cases earlier <;> simp_all [SameForm]
          · intro z hz
            exact not_sameForm hb hz
      · exact (ih hsep.2 ht).cons (by simp [SameForm])

/-- What undisturbed waits keep: no handler waits twice, the form of a waiting handler may still be
sent, and the wallet that was checked is the one that is open, if any is. -/
structure Calm (s : Gui) : Prop where
  distinct : s.stack.Pairwise fun f g => g.handler ≠ f.handler
  mayFollow : ∀ f ∈ s.stack, ∀ sent : Submission, sent.handler = f.handler →
    MayFollow SameForm Releases (.submitted sent) s.log
  delayed : ∀ f ∈ s.stack, f.stage = .delay → ∀ w ∈ s.wallet, f.passwordOf = some w
  balance : ∀ f ∈ s.stack, f.handler = .sendFunds → ∀ w ∈ s.wallet, f.balanceOf = some w
  separated : NeverResent s
  checked : ExecutedWhereChecked s

theorem calm_init : Calm system.init where
  distinct := by simp [system]
  mayFollow := by simp [system]
  delayed := by simp [system]
  balance := by simp [system]
  separated := trivial
  checked := by simp [system, ExecutedWhereChecked]

/-- Clearing or editing a form disturbs nothing: it adds no submission to the log. -/
theorem Calm.change {s : Gui} (hs : Calm s) (h : Handler) {x : Entry}
    (hx : ∀ sent, x ≠ .submitted sent) : Calm (s.change h x) where
  distinct := hs.distinct
  mayFollow f hf sent hsent := (hs.mayFollow f hf sent hsent).cons (by
    cases x with
    | submitted t => exact absurd rfl (hx t)
    | edited _ => simp [SameForm]
    | cleared _ _ => simp [SameForm])
  delayed := hs.delayed
  balance := hs.balance
  separated := ⟨by
    intro between earlier before _ hc
    cases x with
    | submitted t => exact absurd rfl (hx t)
    | edited _ => exact hc.elim
    | cleared _ _ => exact hc.elim, hs.separated⟩
  checked sent hsent := by
    rcases List.mem_cons.mp hsent with h | h
    · exact absurd h.symm (hx sent)
    · exact hs.checked sent h

theorem Calm.enter {s : Gui} (hs : Calm s) {h : Handler} (hstack : ∀ f ∈ s.stack, f.handler ≠ h)
    (ht : Touched h s.log) (hb : h = .sendFunds → ∀ w ∈ s.wallet, s.portfolioOf = some w)
    (prompt : Bool) : Calm (enter s h prompt) where
  distinct := List.pairwise_cons.mpr ⟨hstack, hs.distinct⟩
  mayFollow := List.forall_mem_cons.mpr ⟨fun _ hsent =>
    mayFollow_of_touched hs.separated (hsent ▸ ht), hs.mayFollow⟩
  delayed := by
    refine List.forall_mem_cons.mpr ⟨?_, hs.delayed⟩
    intro hstage w hw
    cases prompt with
    | true => simp at hstage
    | false => exact hw
  balance := List.forall_mem_cons.mpr ⟨hb, hs.balance⟩
  separated := hs.separated
  checked := hs.checked

/-- A handler that leaves without a submission. -/
theorem Calm.leave {s : Gui} {top : Suspended} {outer : List Suspended} (hs : Calm s)
    (hstack : s.stack = top :: outer) : Calm { s with stack := outer } := by
  have hsub : outer ⊆ s.stack := by simp [hstack]
  have hdistinct := hs.distinct
  rw [hstack] at hdistinct
  exact ⟨hdistinct.of_cons, fun f hf => hs.mayFollow f (hsub hf),
    fun f hf => hs.delayed f (hsub hf), fun f hf => hs.balance f (hsub hf), hs.separated,
    hs.checked⟩

/-- A password that is accepted is that of the open wallet. -/
theorem Calm.accept {s : Gui} {top : Suspended} {outer : List Suspended} (hs : Calm s)
    (hstack : s.stack = top :: outer) :
    Calm { s with stack := { top with passwordOf := s.wallet, stage := .delay } :: outer } := by
  have hleft := hs.leave hstack
  have htop : top ∈ s.stack := by simp [hstack]
  have hdistinct := hs.distinct
  rw [hstack, List.pairwise_cons] at hdistinct
  refine ⟨List.pairwise_cons.mpr hdistinct, ?_, ?_, ?_, hs.separated, hs.checked⟩
  · exact List.forall_mem_cons.mpr ⟨hs.mayFollow top htop, hleft.mayFollow⟩
  · exact List.forall_mem_cons.mpr ⟨fun _ _ hw => hw, hleft.delayed⟩
  · exact List.forall_mem_cons.mpr ⟨hs.balance top htop, hleft.balance⟩

/-- Leaving a handler with or without its submission. -/
theorem Calm.resume {s : Gui} {top : Suspended} {outer : List Suspended} (hs : Calm s)
    (hstack : s.stack = top :: outer) (hstage : top.stage = .delay) (checks : Bool) :
    Calm (resume { s with stack := outer } top checks) := by
  have hleft := hs.leave hstack
  have htop : top ∈ s.stack := by simp [hstack]
  have hdistinct := hs.distinct
  rw [hstack, List.pairwise_cons] at hdistinct
  unfold SendWait.resume
  split
  · exact hleft
  · next w hw =>
    split_ifs
    · refine ⟨hleft.distinct, fun f hf sent hsent => ?_, hleft.delayed, hleft.balance,
        ⟨hs.mayFollow top htop _ rfl, hs.separated⟩, fun sent hsent => ?_⟩
      · apply (hleft.mayFollow f hf sent hsent).cons
        intro hc
        exact hdistinct.1 f hf (hsent.symm.trans hc)
      · rcases List.mem_cons.mp hsent with h | h
        · cases h
          exact ⟨hs.delayed top htop hstage w hw, fun hf => hs.balance top htop hf w hw⟩
        · exact hs.checked sent h
    · exact hleft

theorem calm_step (s : Gui) (e : Event) (hs : Calm s) (he : enabled s e) (hu : Undisturbed s e) :
    Calm (handle s e) := by
  cases e with
  | edit h => exact hs.change h (by simp)
  | click h checks prompt =>
    cases checks with
    | false => exact hs
    | true =>
      obtain ⟨hstack, ht, hb⟩ := hu rfl
      exact hs.enter hstack ht hb prompt
  | answer accepted =>
    simp only [handle]
    cases hstack : s.stack with
    | nil => exact hs
    | cons top outer =>
      cases accepted with
      | false => exact hs.leave hstack
      | true => exact hs.accept hstack
  | endDelay checks =>
    simp only [handle]
    cases hstack : s.stack with
    | nil => exact hs
    | cons top outer =>
      have hstage : top.stage = .delay := by simpa [enabled, Gui.inDelay, hstack] using he
      exact hs.resume hstack hstage checks
  | sendTransactionCompleted id error =>
    cases error with
    | true => exact hs
    | false => exact hs.change .sendFunds (by simp)
  | sendMessageCompleted id error =>
    cases error with
    | true => exact hs
    | false => exact hs.change .sendMessage (by simp)
  | updatePortfolio => exact ⟨hs.distinct, hs.mayFollow, hs.delayed, hs.balance, hs.separated,
      hs.checked⟩
  | closeWallet => exact ⟨hs.distinct, hs.mayFollow, by simp [handle], by simp [handle],
      hs.separated, hs.checked⟩
  | openWallet =>
    have hstack : s.stack = [] := hu
    exact ⟨hs.distinct, hs.mayFollow, by simp [handle, hstack], by simp [handle, hstack],
      hs.separated, hs.checked⟩

/-- In every run whose waits are undisturbed no filled form is sent twice, and every submission is
executed by the wallet that was checked for it. -/
theorem undisturbed_sends_once (h : List Event) (hrun : system.Admissible h)
    (hquiet : system.Always Undisturbed h) :
    NeverResent (system.after h) ∧ ExecutedWhereChecked (system.after h) := by
  have calm := EventSystem.Always.invariant calm_init
    (fun s e hs he => calm_step s e hs he.1 he.2) (hrun.and hquiet)
  exact ⟨calm.separated, calm.checked⟩

/-- Two payments, the second from a form edited after the first had completed, with a message that
is sent during the wait of the second. -/
theorem undisturbed_sends_once_run :
    let h : List Event := [.endDelay true, .endDelay true, .click .sendMessage true false,
      .answer true, .click .sendFunds true true, .edit .sendFunds,
      .sendTransactionCompleted (some 0) false, .endDelay true, .click .sendFunds true false]
    (system.after h).submissions = 3 ∧ NeverResent (system.after h) ∧
      ExecutedWhereChecked (system.after h) :=
  ⟨by decide, undisturbed_sends_once _ (by decide) (by decide)⟩

/-- A second click during the wait of the first one sends the same form twice, and a wallet that
is opened during the wait executes a send that was checked against another one. -/
theorem wait_sends_twice :
    (∃ h, system.Admissible h ∧ ¬ NeverResent (system.after h)) ∧
      ∃ h, system.Admissible h ∧ ¬ ExecutedWhereChecked (system.after h) := by
  constructor
  · refine ⟨[.endDelay true, .endDelay true, .click .sendFunds true false,
      .click .sendFunds true false], by decide, fun hsep => ?_⟩
    have hlog : (system.after [.endDelay true, .endDelay true, .click .sendFunds true false,
        .click .sendFunds true false]).log =
      [] ++ .submitted ⟨.sendFunds, 1, 0, some 0, some 0, 0⟩ ::
        ([] ++ .submitted ⟨.sendFunds, 0, 0, some 0, some 0, 0⟩ :: []) := by decide
    obtain ⟨r, hr, -⟩ := Separated.between hsep hlog rfl
    simp at hr
  · refine ⟨[.endDelay true, .openWallet, .closeWallet, .click .sendFunds true false],
      by decide, fun hexec => ?_⟩
    have hsent : .submitted ⟨.sendFunds, 0, 0, some 0, some 0, 1⟩ ∈ (system.after
        [.endDelay true, .openWallet, .closeWallet, .click .sendFunds true false]).log := by decide
    have hw := (hexec _ hsent).1
    simp at hw

end ConcealDesktop.SendWait
