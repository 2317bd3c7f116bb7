import ConcealDesktop.Library.EventSystem
import Mathlib.Data.Set.Operations

/-! The status refresh of WalletAdapter. The slot updateBlockStatusText arms a single-shot timer
for itself each time it runs, and four other places run it or arm such a timer. -/
namespace ConcealDesktop.BlockStatus
open EventDriven

/-- The signals of WalletAdapter that reach it through the event queue. -/
inductive Signal where
  | walletInitCompletedSignal (error : Bool)
  | updateBlockStatusTextSignal
  | updateBlockStatusTextWithDelaySignal
deriving DecidableEq

structure WalletAdapter where
  isOpen : Bool
  m_isBackupInProgress : Bool
  posted : List Signal
  /-- The single-shot timers for updateBlockStatusText that have not expired, by interval. -/
  timers : List ℕ
deriving DecidableEq

namespace WalletAdapter

/-- LAST_BLOCK_INFO_UPDATING_INTERVAL, one minute in milliseconds. -/
def lastBlockInfoUpdatingInterval : ℕ := 60 * 1000

def singleShot (s : WalletAdapter) (interval : ℕ) : WalletAdapter :=
  { s with timers := s.timers ++ [interval] }

def post (s : WalletAdapter) (signal : Signal) : WalletAdapter :=
  { s with posted := s.posted ++ [signal] }

def updateBlockStatusText (s : WalletAdapter) : WalletAdapter :=
  if s.isOpen then s.singleShot lastBlockInfoUpdatingInterval else s

def updateBlockStatusTextWithDelay (s : WalletAdapter) : WalletAdapter := s.singleShot 5000

/-- An error of the initialisation drops the wallet. -/
def onWalletInitCompleted (s : WalletAdapter) (error : Bool) : WalletAdapter :=
  if s.isOpen then if error then { s with isOpen := false } else s.singleShot 5000 else s

def synchronizationCompleted (s : WalletAdapter) (error : Bool) : WalletAdapter :=
  if error then s else s.post .updateBlockStatusTextSignal

def saveCompleted (s : WalletAdapter) (error : Bool) : WalletAdapter :=
  if !error && !s.m_isBackupInProgress then s.post .updateBlockStatusTextWithDelaySignal
  else if s.m_isBackupInProgress then { s with m_isBackupInProgress := false }
  else s

def sendTransactionCompleted (s : WalletAdapter) : WalletAdapter :=
  s.post .updateBlockStatusTextWithDelaySignal

def slot (s : WalletAdapter) : Signal → WalletAdapter
  | .walletInitCompletedSignal error => s.onWalletInitCompleted error
  | .updateBlockStatusTextSignal => s.updateBlockStatusText
  | .updateBlockStatusTextWithDelaySignal => s.updateBlockStatusTextWithDelay

def deliver (s : WalletAdapter) : WalletAdapter :=
  match s.posted with
  | [] => s
  | signal :: rest => { s with posted := rest }.slot signal

def timeout (s : WalletAdapter) (i : ℕ) : WalletAdapter :=
  { s with timers := s.timers.eraseIdx i }.updateBlockStatusText

end WalletAdapter

inductive Event where
  | openWallet
  /-- WalletAdapter::close, or an error after which the wallet is dropped. -/
  | close
  | initCompleted (error : Bool)
  | synchronizationCompleted (error : Bool)
  | saveCompleted (error : Bool)
  | sendTransactionCompleted
  /-- The event loop delivers the oldest queued signal. -/
  | deliver
  /-- The timer at this place expires. -/
  | timeout (i : ℕ)
deriving DecidableEq

/-- The wallet library reports about the open wallet only. -/
def enabled (s : WalletAdapter) : Event → Prop
  | .openWallet => s.isOpen = false
  | .close | .initCompleted _ | .synchronizationCompleted _ | .saveCompleted _
  | .sendTransactionCompleted => s.isOpen = true
  | .deliver => s.posted ≠ []
  | .timeout i => i < s.timers.length

instance decidableEnabled (s : WalletAdapter) : (e : Event) → Decidable (enabled s e)
  | .openWallet => inferInstanceAs (Decidable (s.isOpen = false))
  | .close | .initCompleted _ | .synchronizationCompleted _ | .saveCompleted _
  | .sendTransactionCompleted => inferInstanceAs (Decidable (s.isOpen = true))
  | .deliver => inferInstanceAs (Decidable (s.posted ≠ []))
  | .timeout i => inferInstanceAs (Decidable (i < s.timers.length))

def handle (s : WalletAdapter) : Event → WalletAdapter
  | .openWallet => { s with isOpen := true }
  | .close => { s with isOpen := false }
  | .initCompleted error => s.post (.walletInitCompletedSignal error)
  | .synchronizationCompleted error => s.synchronizationCompleted error
  | .saveCompleted error => s.saveCompleted error
  | .sendTransactionCompleted => s.sendTransactionCompleted
  | .deliver => s.deliver
  | .timeout i => s.timeout i

def system : EventSystem WalletAdapter Event where
  init := ⟨false, false, [], []⟩
  enabled := enabled
  handle := handle

instance (s : WalletAdapter) (e : Event) : Decidable (system.enabled s e) := decidableEnabled s e

/-- A queued signal reaches its slot, and the slot asks for a refresh: always after a saved wallet
or a sent transaction, otherwise only while a wallet is open. -/
def Trigger (s : WalletAdapter) : Event → Prop
  | .deliver => ∃ signal ∈ s.posted.head?, signal = .updateBlockStatusTextWithDelaySignal ∨
      s.isOpen = true ∧ signal ≠ .walletInitCompletedSignal true
  | _ => False

instance decidableTrigger (s : WalletAdapter) : (e : Event) → Decidable (Trigger s e)
  | .deliver => by
      unfold Trigger
      infer_instance
  | .openWallet | .close | .initCompleted _ | .synchronizationCompleted _ | .saveCompleted _
  | .sendTransactionCompleted | .timeout _ => inferInstanceAs (Decidable False)

/-- A timer expires while no wallet is open, so that the slot does not renew it. -/
def Lapse (s : WalletAdapter) : Event → Prop
  | .timeout _ => s.isOpen = false
  | _ => False

instance decidableLapse (s : WalletAdapter) : (e : Event) → Decidable (Lapse s e)
  | .timeout _ => inferInstanceAs (Decidable (s.isOpen = false))
  | .openWallet | .close | .initCompleted _ | .synchronizationCompleted _ | .saveCompleted _
  | .sendTransactionCompleted | .deliver => inferInstanceAs (Decidable False)

/-- The triggers of a run, over all wallets that are opened in it. -/
def triggers : List Event → ℕ
  | [] => 0
  | e :: h => triggers h + if Trigger (system.after h) e then 1 else 0

def lapses : List Event → ℕ
  | [] => 0
  | e :: h => lapses h + if Lapse (system.after h) e then 1 else 0

theorem not_trigger {s : WalletAdapter} {e : Event} (he : e ≠ .deliver) : ¬ Trigger s e := by
  cases e with
  | deliver => exact absurd rfl he
  | _ => exact id

theorem length_timers_timeout {s : WalletAdapter} {i : ℕ} (hi : i < s.timers.length) :
    (s.timeout i).timers.length + (if Lapse s (.timeout i) then 1 else 0) = s.timers.length := by
  have hrest : (s.timers.eraseIdx i).length = s.timers.length - 1 :=
    List.length_eraseIdx_of_lt hi
  unfold WalletAdapter.timeout WalletAdapter.updateBlockStatusText
  cases hopen : s.isOpen with
  | true =>
    have hrenewed : ¬Lapse s (.timeout i) :=
      fun hlapse => Bool.false_ne_true (hlapse.symm.trans hopen)
    rw [if_neg hrenewed, if_pos rfl]
    simp only [WalletAdapter.singleShot, List.length_append, List.length_singleton, hrest]
    omega
  | false =>
    have hlapse : Lapse s (.timeout i) := hopen
    rw [if_pos hlapse, if_neg Bool.false_ne_true, hrest]
    omega

/-- Every trigger arms one more timer. -/
theorem length_timers_deliver (s : WalletAdapter) :
    s.deliver.timers.length = s.timers.length + if Trigger s .deliver then 1 else 0 := by
  unfold WalletAdapter.deliver
  cases hposted : s.posted with
  | nil => simp [Trigger, hposted]
  | cons signal rest =>
    cases hopen : s.isOpen <;> cases signal with
    | walletInitCompletedSignal error =>
      cases error <;> simp [WalletAdapter.slot, WalletAdapter.onWalletInitCompleted,
        WalletAdapter.singleShot, Trigger, hposted, hopen]
    | updateBlockStatusTextSignal =>
      simp [WalletAdapter.slot, WalletAdapter.updateBlockStatusText, WalletAdapter.singleShot,
        Trigger, hposted, hopen]
    | updateBlockStatusTextWithDelaySignal =>
      simp [WalletAdapter.slot, WalletAdapter.updateBlockStatusTextWithDelay,
        WalletAdapter.singleShot, Trigger, hposted]

@[simp] theorem timers_synchronizationCompleted (s : WalletAdapter) (error : Bool) :
    (s.synchronizationCompleted error).timers = s.timers := by
  cases error <;> rfl

@[simp] theorem timers_saveCompleted (s : WalletAdapter) (error : Bool) :
    (s.saveCompleted error).timers = s.timers := by
  unfold WalletAdapter.saveCompleted
  split_ifs <;> rfl

/-- A step adds one timer if it is a trigger and takes one away if it is a lapse; another expired
timer is replaced by the one that the slot arms. -/
theorem length_timers_handle {s : WalletAdapter} {e : Event} (he : enabled s e) :
    (handle s e).timers.length + (if Lapse s e then 1 else 0) =
      s.timers.length + if Trigger s e then 1 else 0 := by
  cases e with
  | deliver => exact length_timers_deliver s
  | timeout i =>
    rw [if_neg (not_trigger (by simp))]
    exact length_timers_timeout he
  | openWallet | close | initCompleted error | sendTransactionCompleted => rfl
  | synchronizationCompleted error | saveCompleted error =>
    rw [if_neg (not_trigger (by simp))]
    simp [handle, Lapse]

/-- The pending timers of a run are its triggers without its lapses. -/
theorem length_timers_after {h : List Event} (hadm : system.Admissible h) :
    (system.after h).timers.length + lapses h = triggers h := by
  induction h with
  | nil => rfl
  | cons e h ih =>
    have hstep : (system.after (e :: h)).timers.length +
        (if Lapse (system.after h) e then 1 else 0) = (system.after h).timers.length +
          if Trigger (system.after h) e then 1 else 0 := length_timers_handle hadm.1
    have hbefore := ih hadm.2
    unfold triggers lapses
    omega

/-- Whatever the runs, with any number of wallets opened one after the other, the timers that are
pending while a wallet is open have a common bound exactly when the triggers exceed the timers
that expired between two wallets by a bounded number. -/
theorem timers_bounded_iff_triggers_bounded (runs : Set (List Event))
    (hadm : ∀ h ∈ runs, system.Admissible h) :
    (∃ bound, ∀ h ∈ runs, (system.after h).isOpen = true →
        (system.after h).timers.length ≤ bound) ↔
      ∃ bound, ∀ h ∈ runs, (system.after h).isOpen = true → triggers h ≤ lapses h + bound := by
  constructor
  · rintro ⟨bound, hbound⟩
    refine ⟨bound, fun h hh hopen => ?_⟩
    have hcount := length_timers_after (hadm h hh)
    have hle := hbound h hh hopen
    omega
  · rintro ⟨bound, hbound⟩
    refine ⟨bound, fun h hh hopen => ?_⟩
    have hcount := length_timers_after (hadm h hh)
    have hle := hbound h hh hopen
    omega

/-- A wallet has been opened, and its initialisation has armed the first timer. -/
def opened : List Event := [.deliver, .initCompleted false, .openWallet]

/-- One wallet after another is opened and closed, and its timer expires before the next one. -/
def reopened : ℕ → List Event
  | 0 => []
  | n + 1 => .timeout 0 :: .close :: (opened ++ reopened n)

theorem after_reopened (n : ℕ) : system.after (reopened n) = system.init := by
  induction n with
  | zero => rfl
  | succ n ih =>
    have hopened : system.after (opened ++ reopened n) = ⟨true, false, [], [5000]⟩ := by
      simp only [opened, List.cons_append, List.nil_append, EventSystem.after_cons, ih]
      decide
    rw [reopened, EventSystem.after_cons, EventSystem.after_cons, hopened]
    rfl

theorem after_opened_reopened (n : ℕ) :
    system.after (opened ++ reopened n) = ⟨true, false, [], [5000]⟩ := by
  simp only [opened, List.cons_append, List.nil_append, EventSystem.after_cons, after_reopened]
  decide

theorem reopened_admissible (n : ℕ) : system.Admissible (opened ++ reopened n) := by
  have hopening {h : List Event} (hh : system.Admissible h) (hinit : system.after h = system.init) :
      system.Admissible (opened ++ h) := by
    have hopen : system.Admissible (.openWallet :: h) := .cons (by rw [hinit]; decide) hh
    have hinitialised : system.Admissible (.initCompleted false :: .openWallet :: h) :=
      .cons (by rw [EventSystem.after_cons, hinit]; decide) hopen
    have hdelivered : system.Admissible (.deliver :: .initCompleted false :: .openWallet :: h) :=
      .cons (by rw [EventSystem.after_cons, EventSystem.after_cons, hinit]; decide) hinitialised
    exact hdelivered
  induction n with
  | zero => exact hopening trivial rfl
  | succ n ih =>
    refine hopening ⟨?_, ?_, ih⟩ (after_reopened (n + 1))
    · rw [EventSystem.after_cons, after_opened_reopened]
      decide
    · rw [after_opened_reopened]
      decide

/-- The timer of each wallet lapses, so that of the last one is the only one. -/
theorem reopened_timers_bounded :
    ∃ bound, ∀ h ∈ Set.range (opened ++ reopened ·), (system.after h).isOpen = true →
      (system.after h).timers.length ≤ bound := by
  refine (timers_bounded_iff_triggers_bounded _ ?_).mpr ⟨1, ?_⟩
  · rintro h ⟨n, rfl⟩
    exact reopened_admissible n
  · rintro h ⟨n, rfl⟩ -
    have hcount := length_timers_after (reopened_admissible n)
    rw [after_opened_reopened, List.length_singleton] at hcount
    exact Nat.le_of_eq (by rw [← hcount, Nat.add_comm])

/-- The wallet that is open after `base` stays open during the events `h` that follow. -/
def StaysOpen (base : List Event) : List Event → Prop
  | [] => (system.after base).isOpen = true
  | e :: h => (system.after (e :: (h ++ base))).isOpen = true ∧ StaysOpen base h

/-- The synchronisation is completed for one block after another. -/
def blocks : ℕ → List Event
  | 0 => []
  | n + 1 => .deliver :: .synchronizationCompleted false :: blocks n

theorem after_blocks (n : ℕ) : system.after (blocks n ++ opened) =
    ⟨true, false, [], 5000 :: List.replicate n WalletAdapter.lastBlockInfoUpdatingInterval⟩ := by
  induction n with
  | zero => decide
  | succ n ih =>
    rw [blocks, List.cons_append, List.cons_append, EventSystem.after_cons,
      EventSystem.after_cons, ih, List.replicate_succ']
    rfl

theorem blocks_admissible (n : ℕ) :
    system.Admissible (blocks n ++ opened) ∧ StaysOpen opened (blocks n) := by
  induction n with
  | zero => exact ⟨by decide, rfl⟩
  | succ n ih =>
    obtain ⟨hadm, hopen⟩ := ih
    have hnext := after_blocks (n + 1)
    refine ⟨⟨?_, ?_, hadm⟩, ?_, ?_, hopen⟩
    · change (system.after (.synchronizationCompleted false :: (blocks n ++ opened))).posted ≠ []
      rw [EventSystem.after_cons, after_blocks]
      exact List.cons_ne_nil _ _
    · change enabled (system.after (blocks n ++ opened)) (.synchronizationCompleted false)
      rw [after_blocks]
      rfl
    · exact congrArg WalletAdapter.isOpen hnext
    · rw [EventSystem.after_cons, after_blocks]
      rfl

/-- Each block leaves one more timer behind, so nothing bounds them. -/
theorem timers_unbounded :
    ¬ ∃ bound, ∀ h, system.Admissible (h ++ opened) → StaysOpen opened h →
      (system.after (h ++ opened)).timers.length ≤ bound := by
  rintro ⟨bound, hbound⟩
  obtain ⟨hadm, hopen⟩ := blocks_admissible bound
  have hle := hbound (blocks bound) hadm hopen
  rw [after_blocks, List.length_cons, List.length_replicate] at hle
  omega

end ConcealDesktop.BlockStatus
