import ConcealDesktop.Library.EventSystem
import ConcealDesktop.Wallet

/-! Notifications of new transactions. While the wallet synchronises, the wallet thread only
stores the id of the last transaction, and the GUI thread emits it from a timer and once more
when the synchronisation has completed. Every access to an atomic member and every emission of
a signal is a step of its own, so the two threads interleave within their functions. -/
namespace ConcealDesktop.Notifications
open EventDriven

/-- The largest quint64, which stands for no transaction. -/
def noTransaction : TransactionId := 2 ^ 64 - 1

/-- The queued signals that drive the timer. -/
inductive Signal where
  | walletSynchronizationProgressUpdated
  | walletSynchronizationCompleted
deriving DecidableEq

/-- What the wallet thread does next in the callback that it runs. -/
inductive Callback where
  | idle
  /-- externalTransactionCreated loads m_isSynchronized. -/
  | checkSynchronized (id : TransactionId)
  | storeLast (id : TransactionId)
  | emitCreated (id : TransactionId)
  /-- synchronizationProgressUpdated stores m_isSynchronized. -/
  | clearSynchronized
  | emitProgressUpdated
  /-- synchronizationCompleted stores m_isSynchronized. -/
  | setSynchronized
  | emitCompleted
deriving DecidableEq

/-- What the GUI thread does next in notifyAboutLastTransaction. -/
inductive Notify where
  | idle
  /-- The id is loaded for the comparison. -/
  | check
  /-- The id is loaded again for the signal. -/
  | load
  | emit (id : TransactionId)
  /-- The id is overwritten after the signal with `emitted`. -/
  | clear (emitted : TransactionId)
deriving DecidableEq

structure State where
  m_isSynchronized : Bool
  m_lastWalletTransactionId : TransactionId
  callback : Callback
  notify : Notify
  posted : List Signal
  timerActive : Bool
  /-- The ids that externalTransactionCreated was called with. -/
  reported : List TransactionId
  /-- The ids of the emitted walletTransactionCreatedSignal. -/
  emitted : List TransactionId

inductive Event where
  | externalTransactionCreated (id : TransactionId)
  | synchronizationProgressUpdated
  | synchronizationCompleted
  | walletStep
  | deliver
  | timeout
  | guiStep
deriving DecidableEq

def State.initial : State := ⟨false, noTransaction, .idle, .idle, [], false, [], []⟩

/-- The wallet thread's ids increase and stay below the invalid one. -/
def enabled (s : State) : Event → Prop
  | .externalTransactionCreated id =>
    s.callback = .idle ∧ (∀ r ∈ s.reported, r < id) ∧ id < WALLET_INVALID_TRANSACTION_ID
  | .synchronizationProgressUpdated | .synchronizationCompleted => s.callback = .idle
  | .walletStep => s.callback ≠ .idle
  | .deliver => s.notify = .idle ∧ s.posted ≠ []
  | .timeout => s.notify = .idle ∧ s.timerActive = true
  | .guiStep => s.notify ≠ .idle

instance decidableEnabled (s : State) : (e : Event) → Decidable (enabled s e)
  | .externalTransactionCreated id => inferInstanceAs (Decidable
      (s.callback = .idle ∧ (∀ r ∈ s.reported, r < id) ∧ id < WALLET_INVALID_TRANSACTION_ID))
  | .synchronizationProgressUpdated | .synchronizationCompleted =>
    inferInstanceAs (Decidable (s.callback = .idle))
  | .walletStep => inferInstanceAs (Decidable (s.callback ≠ .idle))
  | .deliver => inferInstanceAs (Decidable (s.notify = .idle ∧ s.posted ≠ []))
  | .timeout => inferInstanceAs (Decidable (s.notify = .idle ∧ s.timerActive = true))
  | .guiStep => inferInstanceAs (Decidable (s.notify ≠ .idle))

/-- The next step of the running callback. -/
def walletStep (s : State) : State :=
  match s.callback with
  | .idle => s
  | .checkSynchronized id =>
    { s with callback := if s.m_isSynchronized then .emitCreated id else .storeLast id }
  | .storeLast id => { s with m_lastWalletTransactionId := id, callback := .idle }
  | .emitCreated id => { s with emitted := id :: s.emitted, callback := .idle }
  | .clearSynchronized => { s with m_isSynchronized := false, callback := .emitProgressUpdated }
  | .emitProgressUpdated =>
    { s with posted := s.posted ++ [.walletSynchronizationProgressUpdated], callback := .idle }
  | .setSynchronized => { s with m_isSynchronized := true, callback := .emitCompleted }
  | .emitCompleted =>
    { s with posted := s.posted ++ [.walletSynchronizationCompleted], callback := .idle }

/-- The event loop of the GUI thread hands the oldest signal to the slot of the constructor. -/
def deliver (s : State) : State :=
  match s.posted with
  | [] => s
  | .walletSynchronizationProgressUpdated :: rest => { s with posted := rest, timerActive := true }
  | .walletSynchronizationCompleted :: rest =>
    { s with posted := rest, timerActive := false, notify := .check }

/-- The next step of notifyAboutLastTransaction. -/
def guiStep (s : State) : State :=
  match s.notify with
  | .idle => s
  | .check =>
    { s with notify := if s.m_lastWalletTransactionId = noTransaction then .idle else .load }
  | .load => { s with notify := .emit s.m_lastWalletTransactionId }
  | .emit id => { s with emitted := id :: s.emitted, notify := .clear id }
  | .clear _ => { s with m_lastWalletTransactionId := noTransaction, notify := .idle }

def handle (s : State) : Event → State
  | .externalTransactionCreated id =>
    { s with callback := .checkSynchronized id, reported := id :: s.reported }
  | .synchronizationProgressUpdated => { s with callback := .clearSynchronized }
  | .synchronizationCompleted => { s with callback := .setSynchronized }
  | .walletStep => walletStep s
  | .deliver => deliver s
  | .timeout => { s with notify := .check }
  | .guiStep => guiStep s

def system : EventSystem State Event where
  init := State.initial
  enabled := enabled
  handle := handle

instance (s : State) (e : Event) : Decidable (system.enabled s e) := decidableEnabled s e

/-- The synchronisation has completed and neither thread has anything left to do. -/
structure Quiescent (s : State) : Prop where
  synchronized : s.m_isSynchronized = true
  delivered : s.posted = []
  callback : s.callback = .idle
  notify : s.notify = .idle

/-- Some signal carries an id that is at least as large as every reported one. -/
def LastNotified (s : State) : Prop :=
  s.reported ≠ [] → ∃ e ∈ s.emitted, ∀ r ∈ s.reported, r ≤ e

/-- The id is overwritten only while it is the one that the signal has just carried. -/
def ClearsEmitted (s : State) : Event → Prop
  | .guiStep => ∀ emitted, s.notify = .clear emitted → s.m_lastWalletTransactionId = emitted
  | _ => True

/-- A notification is due: the wallet is not synchronised, or the end of a synchronisation is
on its way to the GUI thread, or the stored id is about to be read. -/
def Due (s : State) : Prop :=
  s.m_isSynchronized = false ∨ s.callback = .setSynchronized ∨ s.callback = .emitCompleted ∨
    .walletSynchronizationCompleted ∈ s.posted ∨ s.notify = .check ∨ s.notify = .load

/-- The id that the running callback reports. -/
def Callback.reporting : Callback → Option TransactionId
  | .checkSynchronized id | .storeLast id | .emitCreated id => some id
  | .idle | .clearSynchronized | .emitProgressUpdated | .setSynchronized | .emitCompleted => none

/-- Where a reported id `r` is: a signal covers it, a thread holds an id that covers it, or the
stored id covers it and a notification is due. -/
inductive Covered (s : State) (r : TransactionId) : Prop where
  | emitted (e : TransactionId) (he : e ∈ s.emitted) (hr : r ≤ e)
  | reporting (id : TransactionId) (hid : s.callback.reporting = some id) (hr : r ≤ id)
  | loaded (id : TransactionId) (hid : s.notify = .emit id) (hr : r ≤ id)
  | stored (hr : r ≤ s.m_lastWalletTransactionId)
      (hlast : s.m_lastWalletTransactionId ≠ noTransaction) (hdue : Due s)

structure Invariant (s : State) : Prop where
  covered : ∀ r ∈ s.reported, Covered s r
  /-- The id of the running callback is the last one. -/
  latest : ∀ id, s.callback.reporting = some id → id < noTransaction ∧ ∀ r ∈ s.reported, r ≤ id
  /-- Only the wallet thread stores the flag, so it stays as the callback has loaded it. -/
  storing : ∀ id, s.callback = .storeLast id → s.m_isSynchronized = false
  cleared : ∀ id, s.notify = .clear id → id ∈ s.emitted

theorem invariant_initial : Invariant State.initial := by
  constructor
  · intro r hr
    exact absurd hr List.not_mem_nil
  · intro id hid
    cases hid
  · intro id hid
    cases hid
  · intro id hid
    cases hid

theorem invariant_externalTransactionCreated {s : State} {id : TransactionId} (hs : Invariant s)
    (hlast : ∀ r ∈ s.reported, r < id)
    (hid : id < WALLET_INVALID_TRANSACTION_ID) :
    Invariant (handle s (.externalTransactionCreated id)) := by
  have hle : ∀ r ∈ id :: s.reported, r ≤ id := by
    intro r hr
    rcases List.mem_cons.mp hr with rfl | hr
    · exact Nat.le_refl r
    · exact Nat.le_of_lt (hlast r hr)
  constructor
  · intro r hr
    exact .reporting id rfl (hle r hr)
  · intro id' hid'
    obtain rfl : id = id' := Option.some.inj hid'
    exact ⟨hid, hle⟩
  · intro id' hid'
    cases hid'
  · exact hs.cleared

/-- What a step keeps of a covered id when it neither overwrites the stored id nor ends the
emission of a loaded one. -/
theorem Covered.keep {s t : State} {r : TransactionId} (h : Covered s r)
    (hlast : t.m_lastWalletTransactionId = s.m_lastWalletTransactionId)
    (hemitted : ∀ e ∈ s.emitted, e ∈ t.emitted)
    (hreporting : ∀ id, s.callback.reporting = some id →
      t.callback.reporting = some id ∨ id ∈ t.emitted)
    (hloaded : ∀ id, s.notify = .emit id → t.notify = .emit id ∨ id ∈ t.emitted)
    (hdue : Due s → Due t ∨ t.notify = .emit s.m_lastWalletTransactionId ∨
      s.m_lastWalletTransactionId = noTransaction) : Covered t r := by
  cases h with
  | emitted e he hr => exact .emitted e (hemitted e he) hr
  | reporting id hid hr =>
    rcases hreporting id hid with h | h
    · exact .reporting id h hr
    · exact .emitted id h hr
  | loaded id hid hr =>
    rcases hloaded id hid with h | h
    · exact .loaded id h hr
    · exact .emitted id h hr
  | stored hr hne hd =>
    rcases hdue hd with h | h | h
    · exact .stored (by rwa [hlast]) (by rwa [hlast]) h
    · exact .loaded _ h hr
    · exact absurd h hne

/-- A step of a callback that holds no id keeps an id covered if it keeps notifications due. -/
theorem Covered.keep_due {s t : State} {r : TransactionId} (h : Covered s r)
    (hnone : s.callback.reporting = none)
    (hlast : t.m_lastWalletTransactionId = s.m_lastWalletTransactionId)
    (hemitted : t.emitted = s.emitted) (hnotify : t.notify = s.notify) (hdue : Due s → Due t) :
    Covered t r := by
  apply h.keep hlast
  · intro e he
    rwa [hemitted]
  · intro id hid
    rw [hnone] at hid
    cases hid
  · intro id hid
    rw [hnotify]
    exact Or.inl hid
  · exact fun hd => Or.inl (hdue hd)

/-- A callback about the synchronisation starts. -/
theorem invariant_start {s : State} {callback : Callback} (hs : Invariant s)
    (hidle : s.callback = .idle)
    (hstart : callback = .clearSynchronized ∨ callback = .setSynchronized) :
    Invariant { s with callback := callback } := by
  have hnone : callback.reporting = none := by
    rcases hstart with rfl | rfl <;> rfl
  constructor
  · intro r hr
    have hidleNone : s.callback.reporting = none := by rw [hidle]; rfl
    refine (hs.covered r hr).keep_due hidleNone rfl rfl rfl ?_
    intro hdue
    unfold Due at *
    simp only [hidle, reduceCtorEq, false_or] at hdue
    tauto
  · intro id hid
    rw [show callback.reporting = some id from hid] at hnone
    cases hnone
  · intro id hid
    rw [show callback = .storeLast id from hid] at hnone
    cases hnone
  · exact hs.cleared

theorem covered_walletStep {s : State} {r : TransactionId} (hs : Invariant s)
    (hr : r ∈ s.reported) : Covered (walletStep s) r := by
  have hcov := hs.covered r hr
  unfold walletStep
  cases hc : s.callback with
  | idle => exact hcov
  | checkSynchronized id =>
    apply Covered.reporting id
    · show (if s.m_isSynchronized = true then _ else _ : Callback).reporting = some id
      split_ifs <;> rfl
    · exact (hs.latest id (by rw [hc]; rfl)).2 r hr
  | storeLast id =>
    have hlatest := hs.latest id (by rw [hc]; rfl)
    exact .stored (hlatest.2 r hr) (Nat.ne_of_lt hlatest.1) (Or.inl (hs.storing id hc))
  | emitCreated id =>
    have hlatest := hs.latest id (by rw [hc]; rfl)
    exact .emitted id List.mem_cons_self (hlatest.2 r hr)
  | clearSynchronized =>
    refine hcov.keep_due (by rw [hc]; rfl) rfl rfl rfl ?_
    exact fun _ => Or.inl rfl
  | setSynchronized =>
    refine hcov.keep_due (by rw [hc]; rfl) rfl rfl rfl ?_
    exact fun _ => Or.inr (Or.inr (Or.inl rfl))
  | emitCompleted =>
    refine hcov.keep_due (by rw [hc]; rfl) rfl rfl rfl ?_
    intro _
    exact Or.inr (Or.inr (Or.inr (Or.inl (List.mem_append_right _ List.mem_cons_self))))
  | emitProgressUpdated =>
    refine hcov.keep_due (by rw [hc]; rfl) rfl rfl rfl ?_
    intro hdue
    unfold Due at *
    simp only [hc, reduceCtorEq, false_or] at hdue
    simp only [List.mem_append]
    tauto

theorem invariant_walletStep {s : State} (hs : Invariant s) : Invariant (walletStep s) := by
  have hreported : (walletStep s).reported = s.reported := by
    unfold walletStep
    cases s.callback <;> rfl
  have hnotify : (walletStep s).notify = s.notify := by
    unfold walletStep
    cases s.callback <;> rfl
  have hemitted : ∀ e ∈ s.emitted, e ∈ (walletStep s).emitted := by
    intro e he
    unfold walletStep
    cases s.callback with
    | emitCreated id => exact List.mem_cons_of_mem id he
    | _ => exact he
  have hreporting : ∀ id, (walletStep s).callback.reporting = some id →
      s.callback.reporting = some id := by
    intro id
    unfold walletStep
    cases hc : s.callback with
    | checkSynchronized id' => cases hsync : s.m_isSynchronized <;> exact fun h => h
    | idle => exact fun h => by rw [hc] at h; exact h
    | _ => exact fun h => by cases h
  constructor
  · intro r hr
    rw [hreported] at hr
    exact covered_walletStep hs hr
  · intro id hid
    rw [hreported]
    exact hs.latest id (hreporting id hid)
  · intro id
    unfold walletStep
    cases hc : s.callback with
    | checkSynchronized id' =>
      cases hsync : s.m_isSynchronized with
      | false => exact fun _ => rfl
      | true => exact fun h => by cases h
    | idle => exact fun h => hs.storing id h
    | _ => exact fun h => by cases h
  · intro id hid
    rw [hnotify] at hid
    exact hemitted id (hs.cleared id hid)

theorem invariant_deliver {s : State} (hs : Invariant s) (hidle : s.notify = .idle) :
    Invariant (deliver s) := by
  unfold deliver
  cases hp : s.posted with
  | nil => exact hs
  | cons signal rest =>
    cases signal with
    | walletSynchronizationProgressUpdated =>
      constructor
      · intro r hr
        apply (hs.covered r hr).keep
        · rfl
        · exact fun e he => he
        · exact fun id hid => Or.inl hid
        · exact fun id hid => Or.inl hid
        · intro hdue
          apply Or.inl
          unfold Due at *
          simp only [hp, List.mem_cons, reduceCtorEq, false_or] at hdue
          exact hdue
      · exact hs.latest
      · exact hs.storing
      · exact hs.cleared
    | walletSynchronizationCompleted =>
      constructor
      · intro r hr
        apply (hs.covered r hr).keep
        · rfl
        · exact fun e he => he
        · exact fun id hid => Or.inl hid
        · exact fun id hid => by rw [hidle] at hid; cases hid
        · exact fun _ => Or.inl (Or.inr (Or.inr (Or.inr (Or.inr (Or.inl rfl)))))
      · exact hs.latest
      · exact hs.storing
      · exact fun id hid => by cases hid

theorem invariant_timeout {s : State} (hs : Invariant s) (hidle : s.notify = .idle) :
    Invariant (handle s .timeout) := by
  constructor
  · intro r hr
    apply (hs.covered r hr).keep
    · rfl
    · exact fun e he => he
    · exact fun id hid => Or.inl hid
    · exact fun id hid => by rw [hidle] at hid; cases hid
    · exact fun _ => Or.inl (Or.inr (Or.inr (Or.inr (Or.inr (Or.inl rfl)))))
  · exact hs.latest
  · exact hs.storing
  · exact fun id hid => by cases hid

/-- The GUI thread loses no id as long as it overwrites only the id that it has emitted. -/
theorem covered_guiStep {s : State} {r : TransactionId} (hs : Invariant s)
    (hclear : ClearsEmitted s .guiStep) (hr : r ∈ s.reported) : Covered (guiStep s) r := by
  have hcov := hs.covered r hr
  unfold guiStep
  cases hn : s.notify with
  | idle => exact hcov
  | check =>
    apply hcov.keep
    · rfl
    · exact fun e he => he
    · exact fun id hid => Or.inl hid
    · exact fun id hid => by rw [hn] at hid; cases hid
    · intro _
      by_cases hlast : s.m_lastWalletTransactionId = noTransaction
      · exact Or.inr (Or.inr hlast)
      · refine Or.inl (Or.inr (Or.inr (Or.inr (Or.inr (Or.inr ?_)))))
        exact if_neg hlast
  | load =>
    apply hcov.keep
    · rfl
    · exact fun e he => he
    · exact fun id hid => Or.inl hid
    · exact fun id hid => by rw [hn] at hid; cases hid
    · exact fun _ => Or.inr (Or.inl rfl)
  | emit id =>
    apply hcov.keep
    · rfl
    · exact fun e he => List.mem_cons_of_mem id he
    · exact fun id' hid => Or.inl hid
    · intro id' hid
      rw [hn] at hid
      cases hid
      exact Or.inr List.mem_cons_self
    · intro hdue
      apply Or.inl
      unfold Due at *
      simp only [hn, reduceCtorEq, or_false] at hdue
      tauto
  | clear id =>
    -- The stored id is the emitted one, so whatever it covered is covered by a signal.
    have hemitted := hs.cleared id hn
    cases hcov with
    | emitted e he hr => exact .emitted e he hr
    | reporting id' hid hr => exact .reporting id' hid hr
    | loaded id' hid hr => rw [hn] at hid; cases hid
    | stored hr hlast hdue =>
      rw [hclear id hn] at hr
      exact .emitted id hemitted hr

theorem invariant_guiStep {s : State} (hs : Invariant s) (hclear : ClearsEmitted s .guiStep) :
    Invariant (guiStep s) := by
  have hreported : (guiStep s).reported = s.reported := by
    unfold guiStep
    cases s.notify <;> rfl
  have hcallback : (guiStep s).callback = s.callback := by
    unfold guiStep
    cases s.notify <;> rfl
  have hsync : (guiStep s).m_isSynchronized = s.m_isSynchronized := by
    unfold guiStep
    cases s.notify <;> rfl
  constructor
  · intro r hr
    rw [hreported] at hr
    exact covered_guiStep hs hclear hr
  · rw [hreported, hcallback]
    exact hs.latest
  · rw [hcallback, hsync]
    exact hs.storing
  · intro id
    unfold guiStep
    cases hn : s.notify with
    | idle => exact fun h => hs.cleared id h
    | check => split_ifs <;> exact fun h => by cases h
    | load => exact fun h => by cases h
    | emit id' =>
      intro h
      cases h
      exact List.mem_cons_self
    | clear id' => exact fun h => by cases h

theorem invariant_handle {s : State} {e : Event} (hs : Invariant s) (hen : enabled s e)
    (hclear : ClearsEmitted s e) : Invariant (handle s e) := by
  cases e with
  | externalTransactionCreated id =>
    exact invariant_externalTransactionCreated hs hen.2.1 hen.2.2
  | synchronizationProgressUpdated => exact invariant_start hs hen (Or.inl rfl)
  | synchronizationCompleted => exact invariant_start hs hen (Or.inr rfl)
  | walletStep => exact invariant_walletStep hs
  | deliver => exact invariant_deliver hs hen.1
  | timeout => exact invariant_timeout hs hen.1
  | guiStep => exact invariant_guiStep hs hclear

/-- When nothing is due and nothing runs, only a signal can cover an id. -/
theorem emitted_of_quiescent {s : State} {r : TransactionId} (hq : Quiescent s)
    (h : Covered s r) : ∃ e ∈ s.emitted, r ≤ e := by
  cases h with
  | emitted e he hr => exact ⟨e, he, hr⟩
  | reporting id hid hr => rw [hq.callback] at hid; cases hid
  | loaded id hid hr => rw [hq.notify] at hid; cases hid
  | stored hr hlast hdue =>
    unfold Due at hdue
    simp [hq.synchronized, hq.callback, hq.delivered, hq.notify] at hdue

/-- The largest reported id stands for all of them. -/
theorem lastNotified_of_forall {s : State} (h : ∀ r ∈ s.reported, ∃ e ∈ s.emitted, r ≤ e) :
    LastNotified s := by
  intro hne
  obtain ⟨e, he, hle⟩ := h (s.reported.max hne) (List.max_mem hne)
  exact ⟨e, he, fun r hr => (List.le_max_of_mem hr).trans hle⟩

/-- In every run in which the GUI thread overwrites only ids that it has emitted, the end of a
synchronisation leaves no reported id without a signal. -/
theorem lastTransaction_notified (h : List Event) (hrun : system.Admissible h)
    (hclear : system.Always ClearsEmitted h) (hq : Quiescent (system.after h)) :
    LastNotified (system.after h) := by
  have hinv : Invariant (system.after h) :=
    EventSystem.Always.invariant (I := Invariant) invariant_initial
      (fun s e hs hstep => invariant_handle hs hstep.1 hstep.2) (hrun.and hclear)
  apply lastNotified_of_forall
  intro r hr
  exact emitted_of_quiescent hq (hinv.covered r hr)

instance decidableClearsEmitted (s : State) : (e : Event) → Decidable (ClearsEmitted s e)
  | .guiStep =>
    match hn : s.notify with
    | .clear emitted =>
      decidable_of_iff (s.m_lastWalletTransactionId = emitted) (by
        constructor
        · intro heq id hid
          rw [hn] at hid
          cases hid
          exact heq
        · exact fun h => h emitted hn)
    | .idle | .check | .load | .emit _ => isTrue (fun id hid => by rw [hn] at hid; cases hid)
  | .externalTransactionCreated _ | .synchronizationProgressUpdated | .synchronizationCompleted
  | .walletStep | .deliver | .timeout => inferInstanceAs (Decidable True)

/-- A synchronisation that finds two transactions and notifies about the first by the timer. -/
def oneByOne : List Event :=
  [.guiStep, .guiStep, .guiStep, .guiStep, .deliver, .walletStep, .walletStep,
    .synchronizationCompleted,
    .walletStep, .walletStep, .externalTransactionCreated 2,
    .guiStep, .guiStep, .guiStep, .guiStep, .timeout,
    .walletStep, .walletStep, .externalTransactionCreated 1,
    .deliver, .walletStep, .walletStep, .synchronizationProgressUpdated]

theorem lastTransaction_notified_oneByOne :
    system.Admissible oneByOne ∧ LastNotified (system.after oneByOne) :=
  ⟨by decide, lastTransaction_notified oneByOne (by decide) (by decide)
    ⟨by decide, by decide, by decide, by decide⟩⟩

/-- The second transaction is stored between the signal about the first one and the step that
overwrites the stored id. -/
def storedBeforeClear : List Event :=
  [.guiStep, .deliver, .walletStep, .walletStep, .synchronizationCompleted,
    .guiStep,
    .walletStep, .walletStep, .externalTransactionCreated 2,
    .guiStep, .guiStep, .guiStep, .timeout,
    .walletStep, .walletStep, .externalTransactionCreated 1,
    .deliver, .walletStep, .walletStep, .synchronizationProgressUpdated]

/-- The second transaction is never notified. -/
theorem storedBeforeClear_lost :
    system.Admissible storedBeforeClear ∧ Quiescent (system.after storedBeforeClear) ∧
      (system.after storedBeforeClear).emitted = [1] ∧
      ¬ LastNotified (system.after storedBeforeClear) := by
  have hemitted : (system.after storedBeforeClear).emitted = [1] := by decide
  have hreported : (system.after storedBeforeClear).reported = [2, 1] := by decide
  refine ⟨by decide, ⟨by decide, by decide, by decide, by decide⟩, hemitted, ?_⟩
  intro h
  unfold LastNotified at h
  rw [hemitted, hreported] at h
  revert h
  decide

end ConcealDesktop.Notifications
