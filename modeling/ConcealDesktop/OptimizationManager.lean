import ConcealDesktop.Library.EventSystem
import ConcealDesktop.Text

/-! The automatic optimisation of OptimizationManager. optimize() looks at its guards once and then
runs a loop whose body waits in an event loop of its own, so whatever happens to the wallet and
to the settings during a wait is not seen by the calls after it. -/
namespace ConcealDesktop.OptimizationManager
open EventDriven

/-- The wallet that WalletAdapter has open: the session that opened it, and whether the last thing
that its wallet thread has reported is the end of a synchronisation. -/
structure OpenWallet where
  session : ℕ
  synchronized : Bool
deriving DecidableEq

/-- The options of Settings that the optimisation depends on. -/
structure Options where
  trackingMode : Bool
  autoOptimizationStatus : QString
deriving DecidableEq

def Options.autoOptimization (options : Options) : Bool :=
  options.autoOptimizationStatus == qstr "enabled"

/-- The signals that are queued for the manager. -/
inductive Signal where
  | synchronizationProgressUpdated
  | synchronizationCompleted
deriving DecidableEq

/-- An optimize() that waits in delay(): the session of the wallet that it has started with, the
calls that it has made before this one, and the number of outputs before it. -/
structure Delay where
  session : ℕ
  i : ℕ
  trackNumUnlockedOutputs : ℕ
deriving DecidableEq

structure State where
  wallet : Option OpenWallet
  sessions : ℕ
  options : Options
  posted : List Signal
  /-- The check timer runs. -/
  m_checkTimerId : Bool
  /-- The optimisation timer runs. -/
  m_optimizationTimerId : Bool
  m_currentOptimizationInterval : ℕ
  m_isSynchronized : Bool
  m_isOptimizing : Bool
  waiting : Option Delay

/-- A call of WalletAdapter::optimizeWallet by optimize(), with what it finds and the session that
the run of optimize() belongs to. -/
structure Call where
  wallet : Option OpenWallet
  options : Options
  startedIn : ℕ
deriving DecidableEq

/-- The wallet is open, synchronised, not a tracking wallet, to be optimised automatically, and
the one that the run has started with. -/
def Call.Proper (call : Call) : Prop :=
  call.options.trackingMode = false ∧ call.options.autoOptimization = true ∧
    call.wallet = some ⟨call.startedIn, true⟩

instance (call : Call) : Decidable call.Proper :=
  inferInstanceAs (Decidable (_ ∧ _ ∧ _))

namespace State

/-- What getUnspentOutputsCount answers is given; it may throw. -/
def getNumUnlockedOutputs (s : State) (unspentOutputs : Option ℕ) : Option ℕ :=
  if s.wallet.isSome then unspentOutputs else some 0

/-- The head of the loop in optimize(): either the next call and its wait, or the end. -/
def loop (s : State) (session i numUnlockedOutputs : ℕ) : State × List Call :=
  if 100 < numUnlockedOutputs ∧ i < 3 then
    ({ s with waiting := some ⟨session, i, numUnlockedOutputs⟩ }, [⟨s.wallet, s.options, session⟩])
  else ({ s with m_isOptimizing := false, waiting := none }, [])

/-- OptimizationManager::optimize up to its first wait. An exception leaves m_isOptimizing set. -/
def optimize (s : State) (unspentOutputs : Option ℕ) : State × List Call :=
  if s.m_isOptimizing then (s, [])
  else match s.wallet with
    | none => (s, [])
    | some wallet =>
      if s.options.trackingMode || !s.m_isSynchronized then (s, [])
      else
        let s := { s with m_isOptimizing := true }
        match s.getNumUnlockedOutputs unspentOutputs with
        | none => (s, [])
        | some numUnlockedOutputs => s.loop wallet.session 0 numUnlockedOutputs

/-- The rest of the loop body after delay(). -/
def resume (s : State) (unspentOutputs : Option ℕ) : State × List Call :=
  match s.waiting with
  | none => (s, [])
  | some delay =>
    match s.getNumUnlockedOutputs unspentOutputs with
    | none => ({ s with waiting := none }, [])
    | some numUnlockedOutputs =>
      if delay.trackNumUnlockedOutputs ≠ numUnlockedOutputs then
        ({ s with m_isOptimizing := false, waiting := none }, [])
      else s.loop delay.session (delay.i + 1) numUnlockedOutputs

/-- Settings::getOptimizationInterval. -/
def getOptimizationInterval : ℕ := 1000 * 60 * 15

def ensureStarted (s : State) (unspentOutputs : Option ℕ) : State × List Call :=
  if s.m_optimizationTimerId ∧ s.m_currentOptimizationInterval = getOptimizationInterval then
    (s, [])
  else
    { s with
      m_currentOptimizationInterval := getOptimizationInterval
      m_optimizationTimerId := true }.optimize unspentOutputs

def ensureStopped (s : State) : State :=
  if s.m_optimizationTimerId then
    { s with m_currentOptimizationInterval := 0, m_optimizationTimerId := false }
  else s

def checkOptimization (s : State) (unspentOutputs : Option ℕ) : State × List Call :=
  if s.options.autoOptimization && s.wallet.isSome then s.ensureStarted unspentOutputs
  else (s.ensureStopped, [])

def walletOpened (s : State) (error : Bool) : State :=
  if error then s else { s with m_checkTimerId := true }

def walletClosed (s : State) : State :=
  { s with m_isSynchronized := false, m_checkTimerId := false, m_optimizationTimerId := false }

/-- WalletAdapter::close, which emits its signal at once. -/
def close (s : State) : State :=
  if s.wallet.isSome then { s with wallet := none }.walletClosed else s

def deliver (s : State) : State :=
  match s.posted with
  | [] => s
  | .synchronizationProgressUpdated :: rest => { s with posted := rest, m_isSynchronized := false }
  | .synchronizationCompleted :: rest => { s with posted := rest, m_isSynchronized := true }

/-- The wallet thread reports about the synchronisation of the open wallet. -/
def report (s : State) (synchronized : Bool) (signal : Signal) : State :=
  { s with
    wallet := s.wallet.map fun wallet => { wallet with synchronized := synchronized }
    posted := s.posted ++ [signal] }

end State

inductive Event where
  /-- A wallet is opened, created or imported, in a session of its own. -/
  | openWallet
  | closeWallet
  /-- WalletAdapter drops the wallet after an error, without a signal. -/
  | dropWallet
  | walletInitCompleted (error : Bool)
  | synchronizationProgressUpdated
  | synchronizationCompleted
  /-- The event loop delivers the oldest queued signal. -/
  | deliver
  | setOptions (options : Options)
  | checkTimeout (unspentOutputs : Option ℕ)
  | optimizationTimeout (unspentOutputs : Option ℕ)
  | delayOver (unspentOutputs : Option ℕ)

def enabled (s : State) : Event → Prop
  | .openWallet | .closeWallet | .dropWallet | .walletInitCompleted _ | .setOptions _ => True
  | .synchronizationProgressUpdated | .synchronizationCompleted => s.wallet.isSome = true
  | .deliver => s.posted ≠ []
  | .checkTimeout _ => s.m_checkTimerId = true
  | .optimizationTimeout _ => s.m_optimizationTimerId = true
  | .delayOver _ => s.waiting.isSome = true

instance decidableEnabled (s : State) : (e : Event) → Decidable (enabled s e)
  | .openWallet | .closeWallet | .dropWallet | .walletInitCompleted _ | .setOptions _ =>
    inferInstanceAs (Decidable True)
  | .synchronizationProgressUpdated | .synchronizationCompleted =>
    inferInstanceAs (Decidable (s.wallet.isSome = true))
  | .deliver => inferInstanceAs (Decidable (s.posted ≠ []))
  | .checkTimeout _ => inferInstanceAs (Decidable (s.m_checkTimerId = true))
  | .optimizationTimeout _ => inferInstanceAs (Decidable (s.m_optimizationTimerId = true))
  | .delayOver _ => inferInstanceAs (Decidable (s.waiting.isSome = true))

/-- The state after an event, and the calls of optimizeWallet that it makes. -/
def run (s : State) : Event → State × List Call
  | .openWallet =>
    ({ s with wallet := some ⟨s.sessions, false⟩, sessions := s.sessions + 1 }, [])
  | .closeWallet => (s.close, [])
  | .dropWallet => ({ s with wallet := none }, [])
  | .walletInitCompleted error => (s.walletOpened error, [])
  | .synchronizationProgressUpdated => (s.report false .synchronizationProgressUpdated, [])
  | .synchronizationCompleted => (s.report true .synchronizationCompleted, [])
  | .deliver => (s.deliver, [])
  | .setOptions options => ({ s with options := options }, [])
  | .checkTimeout unspentOutputs => s.checkOptimization unspentOutputs
  | .optimizationTimeout unspentOutputs => s.optimize unspentOutputs
  | .delayOver unspentOutputs => s.resume unspentOutputs

def handle (s : State) (e : Event) : State := (run s e).1

def initial (options : Options) : State :=
  ⟨none, 0, options, [], false, false, 0, false, false, none⟩

def system (options : Options) : EventSystem State Event where
  init := initial options
  enabled := enabled
  handle := handle

instance (options : Options) (s : State) (e : Event) :
    Decidable ((system options).enabled s e) := decidableEnabled s e

/-! ### What the calls find -/

/-- Every call that an event makes is a proper one. -/
def CallsProper (s : State) (e : Event) : Prop := ∀ call ∈ (run s e).2, call.Proper

instance (s : State) (e : Event) : Decidable (CallsProper s e) :=
  inferInstanceAs (Decidable (∀ call ∈ (run s e).2, call.Proper))

/-- The guards of optimize() let it start, and there is something to optimise. -/
def Starts (s : State) (unspentOutputs : Option ℕ) : Prop :=
  s.m_isOptimizing = false ∧ s.wallet.isSome = true ∧ s.options.trackingMode = false ∧
    s.m_isSynchronized = true ∧ ∃ n ∈ unspentOutputs, 100 < n

/-- The loop goes on after a wait: the number of outputs is the one that was found before it. -/
def GoesOn (s : State) (unspentOutputs : Option ℕ) : Prop :=
  s.wallet.isSome = true ∧ ∃ delay ∈ s.waiting,
    unspentOutputs = some delay.trackNumUnlockedOutputs ∧
      100 < delay.trackNumUnlockedOutputs ∧ delay.i + 1 < 3

instance (s : State) (unspentOutputs : Option ℕ) : Decidable (Starts s unspentOutputs) := by
  unfold Starts
  infer_instance

/-- What m_isSynchronized is once the queued signals are delivered. -/
def State.settled (s : State) : Bool :=
  match s.posted.getLast? with
  | some .synchronizationProgressUpdated => false
  | some .synchronizationCompleted => true
  | none => s.m_isSynchronized

/-- The loop has a call left after the wait. -/
def RoundLeft (s : State) : Prop := ∃ delay ∈ s.waiting, delay.i + 1 < 3

/-- An exception has left m_isOptimizing set, so optimize() never starts again. -/
def Stuck (s : State) : Prop := s.m_isOptimizing = true ∧ s.waiting = none

instance (s : State) : Decidable (RoundLeft s) := by
  unfold RoundLeft
  infer_instance

instance (s : State) : Decidable (Stuck s) := inferInstanceAs (Decidable (_ ∧ _))

/-- While the loop has a call left, no wallet is opened, synchronisation does not begin anew and
the options stay as they must be. A wallet is opened when no report of the end of a
synchronisation is left over from the one before. optimize() starts when no progress signal is
queued behind the ones delivered, and from the optimisation timer only while the option is set. -/
def Undisturbed (s : State) : Event → Prop
  | .openWallet => ¬RoundLeft s ∧ (s.settled = false ∨ Stuck s)
  | .synchronizationProgressUpdated => ¬RoundLeft s
  | .setOptions options => RoundLeft s → s.wallet.isSome = true →
      options.trackingMode = false ∧ options.autoOptimization = true
  | .checkTimeout unspentOutputs =>
    s.options.autoOptimization = true → s.m_optimizationTimerId = false ∨
      s.m_currentOptimizationInterval ≠ State.getOptimizationInterval →
      Starts s unspentOutputs → s.settled = true
  | .optimizationTimeout unspentOutputs =>
    Starts s unspentOutputs → s.settled = true ∧ s.options.autoOptimization = true
  | .closeWallet | .dropWallet | .walletInitCompleted _ | .synchronizationCompleted | .deliver
  | .delayOver _ => True

instance (s : State) (e : Event) : Decidable (Undisturbed s e) := by
  cases e <;> unfold Undisturbed <;> infer_instance

section Calls

variable {s : State} {unspentOutputs : Option ℕ}

theorem mem_loop_iff {session i n : ℕ} {call : Call} :
    call ∈ (s.loop session i n).2 ↔
      (100 < n ∧ i < 3) ∧ call = ⟨s.wallet, s.options, session⟩ := by
  unfold State.loop
  split_ifs with h
  · rw [List.mem_singleton]
    exact ⟨fun hc => ⟨h, hc⟩, fun hc => hc.2⟩
  · constructor
    · intro hc
      cases hc
    · intro hc
      exact absurd hc.1 h

/-- optimize() makes its first call for the wallet that is open when it starts. -/
theorem mem_optimize_iff {call : Call} :
    call ∈ (s.optimize unspentOutputs).2 ↔ Starts s unspentOutputs ∧
      ∃ wallet ∈ s.wallet, call = ⟨s.wallet, s.options, wallet.session⟩ := by
  unfold State.optimize Starts
  cases hwallet : s.wallet with
  | none => simp
  | some wallet =>
    cases hoptimizing : s.m_isOptimizing with
    | true => simp
    | false =>
      cases htracking : s.options.trackingMode with
      | true => simp
      | false =>
        cases hsync : s.m_isSynchronized with
        | false => simp
        | true =>
          cases unspentOutputs with
          | none => simp [State.getNumUnlockedOutputs]
          | some n => simp [State.getNumUnlockedOutputs, mem_loop_iff]

/-- The loop makes another call for whatever wallet is open after the wait. -/
theorem mem_resume_iff {call : Call} :
    call ∈ (s.resume unspentOutputs).2 ↔ GoesOn s unspentOutputs ∧
      ∃ delay ∈ s.waiting, call = ⟨s.wallet, s.options, delay.session⟩ := by
  unfold State.resume GoesOn State.getNumUnlockedOutputs
  cases hwaiting : s.waiting with
  | none => simp
  | some delay =>
    cases hwallet : s.wallet with
    | none =>
      by_cases hzero : delay.trackNumUnlockedOutputs = 0
      · simp [hzero, mem_loop_iff]
      · simp [hzero]
    | some wallet =>
      cases unspentOutputs with
      | none => simp
      | some n =>
        by_cases hsame : delay.trackNumUnlockedOutputs = n
        · simp [hsame, mem_loop_iff, hwallet]
        · simp [hsame, Ne.symm hsame]

theorem mem_checkOptimization_iff {call : Call} :
    call ∈ (s.checkOptimization unspentOutputs).2 ↔
      s.options.autoOptimization = true ∧ (s.m_optimizationTimerId = false ∨
        s.m_currentOptimizationInterval ≠ State.getOptimizationInterval) ∧
        Starts s unspentOutputs ∧
          ∃ wallet ∈ s.wallet, call = ⟨s.wallet, s.options, wallet.session⟩ := by
  unfold State.checkOptimization State.ensureStarted
  by_cases hauto : s.options.autoOptimization = true
  · by_cases hopen : s.wallet.isSome = true
    · by_cases htimer : s.m_optimizationTimerId = true ∧
          s.m_currentOptimizationInterval = State.getOptimizationInterval
      · simp [hauto, hopen, htimer]
      · have hrestart : s.m_optimizationTimerId = false ∨
            s.m_currentOptimizationInterval ≠ State.getOptimizationInterval := by
          rw [← Bool.not_eq_true]
          exact not_and_or.mp htimer
        simp only [hauto, hopen, Bool.and_self, if_true, if_neg htimer, hrestart, true_and]
        exact mem_optimize_iff
    · simp [hopen, Starts]
  · simp [hauto]

theorem proper_start_iff {wallet : OpenWallet} (hwallet : wallet ∈ s.wallet)
    (hstart : Starts s unspentOutputs) :
    (Call.mk s.wallet s.options wallet.session).Proper ↔
      wallet.synchronized = true ∧ s.options.autoOptimization = true := by
  have hsome : s.wallet = some wallet := hwallet
  unfold Call.Proper
  simp only [hsome, hstart.2.2.1, true_and]
  constructor
  · rintro ⟨hauto, hsame⟩
    exact ⟨by rw [Option.some.inj hsame], hauto⟩
  · rintro ⟨hsync, hauto⟩
    exact ⟨hauto, by rw [← hsync]⟩

end Calls

/-! ### What a handler leaves -/

section Handlers

variable {s : State}

/-- optimize() does nothing, is left by an exception, ends at once or waits. -/
theorem optimize_cases (s : State) (unspentOutputs : Option ℕ) :
    (s.optimize unspentOutputs).1 = s ∨
    (s.m_isOptimizing = false ∧ ((s.optimize unspentOutputs).1 = { s with m_isOptimizing := true } ∨
      (s.optimize unspentOutputs).1 = { s with m_isOptimizing := false, waiting := none })) ∨
    (Starts s unspentOutputs ∧ ∃ wallet ∈ s.wallet, ∃ n, 100 < n ∧
      (s.optimize unspentOutputs).1 =
        { s with m_isOptimizing := true, waiting := some ⟨wallet.session, 0, n⟩ }) := by
  unfold State.optimize
  by_cases hoptimizing : s.m_isOptimizing = true
  · exact Or.inl (by rw [if_pos hoptimizing])
  rw [if_neg hoptimizing]
  rw [Bool.not_eq_true] at hoptimizing
  cases hwallet : s.wallet with
  | none => exact Or.inl rfl
  | some wallet =>
    dsimp only
    split_ifs with hguards
    · exact Or.inl rfl
    · obtain ⟨htracking, hsync⟩ : s.options.trackingMode = false ∧ s.m_isSynchronized = true := by
        simpa using hguards
      cases unspentOutputs with
      | none =>
        refine Or.inr (Or.inl ⟨hoptimizing, Or.inl ?_⟩)
        simp [State.getNumUnlockedOutputs]
      | some n =>
        by_cases hmany : 100 < n
        · refine Or.inr (Or.inr ⟨⟨hoptimizing, ?_, htracking, hsync, n, rfl, hmany⟩, wallet, rfl,
            n, hmany, ?_⟩)
          · rw [hwallet]
            rfl
          · simp [State.getNumUnlockedOutputs, State.loop, hmany]
        · refine Or.inr (Or.inl ⟨hoptimizing, Or.inr ?_⟩)
          simp [State.getNumUnlockedOutputs, State.loop, hmany]

/-- After a wait the loop is left by an exception, ends, or goes on with the next wait. -/
theorem resume_cases {delay : Delay} (hwaiting : s.waiting = some delay)
    (unspentOutputs : Option ℕ) :
    (s.resume unspentOutputs).1 = { s with waiting := none } ∨
    (s.resume unspentOutputs).1 = { s with m_isOptimizing := false, waiting := none } ∨
    (GoesOn s unspentOutputs ∧ (s.resume unspentOutputs).1 =
      { s with waiting := some ⟨delay.session, delay.i + 1, delay.trackNumUnlockedOutputs⟩ }) := by
  unfold State.resume
  rw [hwaiting]
  dsimp only
  cases hnum : s.getNumUnlockedOutputs unspentOutputs with
  | none => exact Or.inl rfl
  | some n =>
    dsimp only
    split_ifs with hchanged
    · exact Or.inr (Or.inl rfl)
    · rw [not_not] at hchanged
      unfold State.loop
      split_ifs with hround
      · refine Or.inr (Or.inr ⟨⟨?_, delay, hwaiting, ?_, ?_, hround.2⟩, by rw [hchanged]⟩)
        · by_contra hclosed
          rw [State.getNumUnlockedOutputs, if_neg hclosed] at hnum
          cases hnum
          omega
        · unfold State.getNumUnlockedOutputs at hnum
          split_ifs at hnum
          · rw [hnum, hchanged]
          · cases hnum
            omega
        · omega
      · exact Or.inr (Or.inl rfl)

theorem resume_changed {delay : Delay} (hwaiting : s.waiting = some delay)
    (hopen : s.wallet.isSome = true) :
    (s.resume (some (delay.trackNumUnlockedOutputs + 1))).1 =
      { s with m_isOptimizing := false, waiting := none } := by
  simp [State.resume, hwaiting, State.getNumUnlockedOutputs, hopen]

theorem settled_report (synchronized : Bool) (signal : Signal)
    (h : signal = if synchronized then .synchronizationCompleted
      else .synchronizationProgressUpdated) :
    (s.report synchronized signal).settled = synchronized := by
  cases synchronized <;> simp [State.settled, State.report, h]

theorem settled_deliver : s.deliver.settled = s.settled := by
  unfold State.deliver
  cases hposted : s.posted with
  | nil => rfl
  | cons signal rest =>
    cases hrest : rest.getLast? with
    | none =>
      rw [List.getLast?_eq_none_iff] at hrest
      cases signal <;> simp [State.settled, hposted, hrest]
    | some last =>
      have hlast : (signal :: rest).getLast? = some last := by
        rw [List.getLast?_cons, hrest]
        rfl
      cases signal <;> cases last <;> simp [State.settled, hposted, hrest, hlast]

end Handlers

/-! ### Undisturbed runs -/

/-- The wallet's last report and the manager's view of it agree, and while the loop has a call left
that call would be a proper one, unless the wallet is closed. -/
structure Calm (s : State) : Prop where
  optimizing : s.waiting.isSome = true → s.m_isOptimizing = true
  settled : Stuck s ∨ ∀ wallet ∈ s.wallet, wallet.synchronized = s.settled
  waiting : ∀ delay ∈ s.waiting, 100 < delay.trackNumUnlockedOutputs ∧
    (delay.i + 1 < 3 → s.wallet = none ∨ (Call.mk s.wallet s.options delay.session).Proper)

section Calm

variable {s : State} {unspentOutputs : Option ℕ}

theorem calm_initial (options : Options) : Calm (initial options) where
  optimizing h := absurd h Bool.false_ne_true
  settled := Or.inr fun _ h => absurd h (Option.not_mem_none _)
  waiting _ h := absurd h (Option.not_mem_none _)

/-- Where optimize() starts, the wallet's last report is the one that the manager will have. -/
theorem Calm.start_iff (hs : Calm s) (hstart : Starts s unspentOutputs) {wallet : OpenWallet}
    (hwallet : wallet ∈ s.wallet) : (Call.mk s.wallet s.options wallet.session).Proper ↔
      s.settled = true ∧ s.options.autoOptimization = true := by
  have hagree := hs.settled.resolve_left fun hstuck =>
    Bool.false_ne_true (hstart.1.symm.trans hstuck.1)
  rw [proper_start_iff hwallet hstart, hagree wallet hwallet]

theorem Calm.optimize (hs : Calm s)
    (hstart : Starts s unspentOutputs → s.settled = true ∧ s.options.autoOptimization = true) :
    Calm (s.optimize unspentOutputs).1 := by
  rcases optimize_cases s unspentOutputs with
    heq | ⟨hidle, heq | heq⟩ | ⟨hstarts, wallet, hwallet, n, hn, heq⟩
  · rwa [heq]
  all_goals rw [heq]
  · have hnone : s.waiting = none := by
      by_contra hwaiting
      have hbusy := hs.optimizing (Option.isSome_iff_ne_none.mpr hwaiting)
      exact Bool.false_ne_true (hidle.symm.trans hbusy)
    exact ⟨fun _ => rfl, Or.inl ⟨rfl, hnone⟩, hs.waiting⟩
  · have hagree := hs.settled.resolve_left fun hstuck =>
      Bool.false_ne_true (hidle.symm.trans hstuck.1)
    exact ⟨fun h => absurd h (by simp), Or.inr hagree,
      fun delay h => absurd h (Option.not_mem_none _)⟩
  · obtain ⟨hsettled, hauto⟩ := hstart hstarts
    have hagree := hs.settled.resolve_left fun hstuck =>
      Bool.false_ne_true (hstarts.1.symm.trans hstuck.1)
    refine ⟨fun _ => rfl, Or.inr hagree, ?_⟩
    rintro delay ⟨⟩
    exact ⟨hn, fun _ => Or.inr ((hs.start_iff hstarts hwallet).mpr (hstart hstarts))⟩

theorem Calm.resume (hs : Calm s) : Calm (s.resume unspentOutputs).1 := by
  cases hwaiting : s.waiting with
  | none =>
    have heq : s.resume unspentOutputs = (s, []) := by
      unfold State.resume
      rw [hwaiting]
    rwa [heq]
  | some delay =>
    have hbusy : s.m_isOptimizing = true := hs.optimizing (by rw [hwaiting]; rfl)
    have hagree := hs.settled.resolve_left fun hstuck =>
      absurd (hwaiting.symm.trans hstuck.2) (by simp)
    obtain ⟨hmany, hproper⟩ := hs.waiting delay hwaiting
    rcases resume_cases hwaiting unspentOutputs with heq | heq | ⟨hgo, heq⟩
    all_goals rw [heq]
    · exact ⟨fun h => absurd h (by simp), Or.inl ⟨hbusy, rfl⟩,
        fun delay h => absurd h (Option.not_mem_none _)⟩
    · exact ⟨fun h => absurd h (by simp), Or.inr hagree,
        fun delay h => absurd h (Option.not_mem_none _)⟩
    · refine ⟨fun _ => hbusy, Or.inr hagree, ?_⟩
      rintro _ ⟨⟩
      refine ⟨hmany, fun hround => hproper ?_⟩
      exact (Nat.lt_succ_self _).trans hround

/-- An event that does not touch the loop and the guards keeps the invariant. -/
theorem Calm.congr (hs : Calm s) {s' : State} (hwallet : s'.wallet = s.wallet)
    (hoptions : s'.options = s.options) (hsettled : s'.settled = s.settled)
    (hoptimizing : s'.m_isOptimizing = s.m_isOptimizing) (hwaiting : s'.waiting = s.waiting) :
    Calm s' := by
  refine ⟨?_, ?_, ?_⟩
  · rw [hwaiting, hoptimizing]
    exact hs.optimizing
  · unfold Stuck
    rw [hwaiting, hoptimizing, hwallet, hsettled]
    exact hs.settled
  · rw [hwaiting, hwallet, hoptions]
    exact hs.waiting

/-- Once the wallet is gone, the loop calls nothing. -/
theorem Calm.of_no_wallet (hs : Calm s) {s' : State} (hwallet : s'.wallet = none)
    (hoptimizing : s'.m_isOptimizing = s.m_isOptimizing) (hwaiting : s'.waiting = s.waiting) :
    Calm s' := by
  refine ⟨?_, Or.inr fun wallet h => ?_, fun delay hdelay => ?_⟩
  · rw [hwaiting, hoptimizing]
    exact hs.optimizing
  · rw [hwallet] at h
    exact absurd h (Option.not_mem_none _)
  · rw [hwaiting] at hdelay
    exact ⟨(hs.waiting delay hdelay).1, fun _ => Or.inl hwallet⟩

/-- A report of the end of a synchronisation leaves a proper call proper; one of new progress must
not come while a call is left. -/
theorem Calm.report (hs : Calm s) {synchronized : Bool} {signal : Signal}
    (hsignal : signal = if synchronized then .synchronizationCompleted
      else .synchronizationProgressUpdated)
    (hround : synchronized = false → ¬RoundLeft s) : Calm (s.report synchronized signal) := by
  have hsettled := settled_report (s := s) synchronized signal hsignal
  refine ⟨hs.optimizing, Or.inr fun wallet hwallet => ?_, fun delay hdelay => ?_⟩
  · obtain ⟨old, -, rfl⟩ := Option.map_eq_some_iff.mp hwallet
    exact hsettled.symm
  · refine ⟨(hs.waiting delay hdelay).1, fun hleft => ?_⟩
    have hmap : (s.report synchronized signal).wallet =
        s.wallet.map fun wallet => { wallet with synchronized := synchronized } := rfl
    cases synchronized with
    | false => exact absurd ⟨delay, hdelay, hleft⟩ (hround rfl)
    | true =>
      rcases (hs.waiting delay hdelay).2 hleft with hclosed | hproper
      · exact Or.inl (by rw [hmap, hclosed]; rfl)
      · have hwallet : s.wallet = some ⟨delay.session, true⟩ := hproper.2.2
        exact Or.inr ⟨hproper.1, hproper.2.1, by rw [hmap, hwallet]; rfl⟩

/-- The step of the induction over a run. -/
theorem Calm.step (hs : Calm s) {e : Event} (he : Undisturbed s e) : Calm (handle s e) := by
  cases e with
  | openWallet =>
    obtain ⟨hround, hsettled⟩ := he
    refine ⟨hs.optimizing, hsettled.symm.imp_right fun hfalse => ?_, fun delay hdelay => ?_⟩
    · rintro wallet ⟨⟩
      exact hfalse.symm
    · refine ⟨(hs.waiting delay hdelay).1, fun hleft => absurd ⟨delay, hdelay, hleft⟩ hround⟩
  | closeWallet =>
    show Calm s.close
    unfold State.close
    split_ifs
    · exact hs.of_no_wallet rfl rfl rfl
    · exact hs
  | dropWallet => exact hs.of_no_wallet rfl rfl rfl
  | walletInitCompleted error =>
    show Calm (s.walletOpened error)
    unfold State.walletOpened
    split_ifs
    · exact hs
    · exact hs.congr rfl rfl rfl rfl rfl
  | synchronizationProgressUpdated => exact hs.report rfl fun _ => he
  | synchronizationCompleted => exact hs.report rfl fun h => absurd h (by decide)
  | deliver =>
    have hframe : s.deliver.wallet = s.wallet ∧ s.deliver.options = s.options ∧
        s.deliver.m_isOptimizing = s.m_isOptimizing ∧ s.deliver.waiting = s.waiting := by
      unfold State.deliver
      split <;> exact ⟨rfl, rfl, rfl, rfl⟩
    exact hs.congr hframe.1 hframe.2.1 settled_deliver hframe.2.2.1 hframe.2.2.2
  | setOptions options =>
    refine ⟨hs.optimizing, hs.settled, fun delay hdelay => ?_⟩
    refine ⟨(hs.waiting delay hdelay).1, fun hleft => ?_⟩
    refine ((hs.waiting delay hdelay).2 hleft).imp_right fun hproper => ?_
    obtain ⟨htracking, hauto⟩ := he ⟨delay, hdelay, hleft⟩ (Option.isSome_of_eq_some hproper.2.2)
    exact ⟨htracking, hauto, hproper.2.2⟩
  | checkTimeout unspentOutputs =>
    show Calm (s.checkOptimization unspentOutputs).1
    unfold State.checkOptimization
    split_ifs with hopen
    · rw [Bool.and_eq_true] at hopen
      unfold State.ensureStarted
      split_ifs with htimer
      · exact hs
      · have hrestart : s.m_optimizationTimerId = false ∨
            s.m_currentOptimizationInterval ≠ State.getOptimizationInterval := by
          rw [← Bool.not_eq_true]
          exact not_and_or.mp htimer
        refine Calm.optimize (hs.congr rfl rfl rfl rfl rfl) fun hstart => ?_
        exact ⟨he hopen.1 hrestart hstart, hopen.1⟩
    · unfold State.ensureStopped
      split_ifs
      · exact hs.congr rfl rfl rfl rfl rfl
      · exact hs
  | optimizationTimeout unspentOutputs => exact hs.optimize he
  | delayOver unspentOutputs => exact hs.resume

/-- From the invariant an undisturbed event makes proper calls only. -/
theorem Calm.callsProper (hs : Calm s) {e : Event} (he : Undisturbed s e) : CallsProper s e := by
  intro call hcall
  cases e with
  | checkTimeout unspentOutputs =>
    obtain ⟨hauto, hrestart, hstart, wallet, hwallet, rfl⟩ := mem_checkOptimization_iff.mp hcall
    exact (hs.start_iff hstart hwallet).mpr ⟨he hauto hrestart hstart, hauto⟩
  | optimizationTimeout unspentOutputs =>
    obtain ⟨hstart, wallet, hwallet, rfl⟩ := mem_optimize_iff.mp hcall
    exact (hs.start_iff hstart hwallet).mpr (he hstart)
  | delayOver unspentOutputs =>
    obtain ⟨⟨hopen, left, hleft, -, -, hround⟩, delay, hdelay, rfl⟩ := mem_resume_iff.mp hcall
    have hsame : left = delay := Option.some.inj (hleft.symm.trans hdelay)
    rcases (hs.waiting delay hdelay).2 (hsame ▸ hround) with hclosed | hproper
    · rw [hclosed] at hopen
      cases hopen
    · exact hproper
  | openWallet | closeWallet | dropWallet | walletInitCompleted error
  | synchronizationProgressUpdated | synchronizationCompleted | deliver | setOptions options =>
    exact absurd hcall List.not_mem_nil

end Calm
def enabledOptions : Options := ⟨false, qstr "enabled"⟩

section Continuations

variable {options : Options} {h : List Event}

theorem not_always_of_call {e : Event} {call : Call}
    (hcall : call ∈ (run ((system options).after h) e).2) (hbad : ¬call.Proper) :
    ¬(system options).Always CallsProper (e :: h) := fun hall => hbad (hall.1 call hcall)

/-- The event loop can deliver everything that is queued. -/
theorem exists_drained (hh : (system options).Admissible h) :
    (system options).CanReach h fun h' => (system options).after h' =
      { (system options).after h with
        posted := []
        m_isSynchronized := ((system options).after h).settled } := by
  generalize hposted : ((system options).after h).posted = posted
  induction posted generalizing h with
  | nil =>
    refine EventSystem.CanReach.here hh ?_
    have hsettled : ((system options).after h).settled =
        ((system options).after h).m_isSynchronized := by
      rw [State.settled, hposted]
      rfl
    rw [hsettled, ← hposted]
  | cons signal rest ih =>
    have hdeliver : (system options).Admissible (.deliver :: h) := by
      refine EventSystem.Admissible.cons ?_ hh
      show ((system options).after h).posted ≠ []
      rw [hposted]
      exact List.cons_ne_nil _ _
    have hrest : ((system options).after (.deliver :: h)).posted = rest := by
      show ((system options).after h).deliver.posted = rest
      unfold State.deliver
      rw [hposted]
      cases signal <;> rfl
    have hsame : { (system options).after (.deliver :: h) with
          posted := []
          m_isSynchronized := ((system options).after (.deliver :: h)).settled } =
        { (system options).after h with
          posted := []
          m_isSynchronized := ((system options).after h).settled } := by
      rw [EventSystem.after_cons]
      show { ((system options).after h).deliver with
        posted := [], m_isSynchronized := ((system options).after h).deliver.settled } = _
      rw [settled_deliver]
      unfold State.deliver
      rw [hposted]
      cases signal <;> rfl
    have hdrained := ih hdeliver hrest
    rw [hsame] at hdrained
    exact hdrained.step

/-- optimize() can start for a wallet that is not synchronised while the manager thinks it is. -/
theorem exists_improper_start (hh : (system options).Admissible h) {session : ℕ}
    (hwallet : ((system options).after h).wallet = some ⟨session, false⟩)
    (hsync : ((system options).after h).m_isSynchronized = true)
    (hidle : ((system options).after h).m_isOptimizing = false) :
    (system options).CanReach h fun h' => ¬(system options).Always CallsProper h' := by
  have hopen : ((system options).after h).wallet.isSome = true := by
    rw [hwallet]
    rfl
  have hbad : ¬(Call.mk ((system options).after h).wallet enabledOptions session).Proper := by
    rw [hwallet]
    exact fun hproper => absurd hproper.2.2 (by simp)
  have hset : (system options).Admissible (.setOptions enabledOptions :: h) := .cons trivial hh
  by_cases htimer : ((system options).after h).m_optimizationTimerId = true
  · have hlast : (system options).Admissible
        (.optimizationTimeout (some 101) :: .setOptions enabledOptions :: h) := .cons htimer hset
    refine (EventSystem.CanReach.here hlast (not_always_of_call ?_ hbad)).step.step
    exact mem_optimize_iff.mpr ⟨⟨hidle, hopen, rfl, hsync, 101, rfl, by decide⟩, _, hwallet, rfl⟩
  · have hinit : (system options).Admissible
        (.walletInitCompleted false :: .setOptions enabledOptions :: h) := .cons trivial hset
    have hlast : (system options).Admissible (.checkTimeout (some 101) ::
        .walletInitCompleted false :: .setOptions enabledOptions :: h) := .cons rfl hinit
    refine (EventSystem.CanReach.here hlast (not_always_of_call ?_ hbad)).step.step.step
    exact mem_checkOptimization_iff.mpr ⟨rfl, Or.inl (Bool.not_eq_true _ ▸ htimer),
      ⟨hidle, hopen, rfl, hsync, 101, rfl, by decide⟩, _, hwallet, rfl⟩

/-- While the loop has a call left, the wait can end with the number of outputs unchanged. -/
theorem exists_improper_resume (hh : (system options).Admissible h)
    (hopen : ((system options).after h).wallet.isSome = true) {delay : Delay}
    (hdelay : delay ∈ ((system options).after h).waiting)
    (hmany : 100 < delay.trackNumUnlockedOutputs) (hround : delay.i + 1 < 3)
    (hbad : ¬(Call.mk ((system options).after h).wallet ((system options).after h).options
      delay.session).Proper) :
    (system options).CanReach h fun h' => ¬(system options).Always CallsProper h' := by
  have hlast : (system options).Admissible
      (.delayOver (some delay.trackNumUnlockedOutputs) :: h) :=
    .cons (Option.isSome_of_eq_some hdelay) hh
  refine (EventSystem.CanReach.here hlast (not_always_of_call ?_ hbad)).step
  exact mem_resume_iff.mpr ⟨⟨hopen, delay, hdelay, rfl, hmany, hround⟩, delay, hdelay, rfl⟩

/-- Once the manager thinks that the open wallet is synchronised and it is not, an improper call
can follow, unless optimize() is stuck. -/
theorem exists_improper_stale (hh : (system options).Admissible h) {session : ℕ}
    (hwallet : ((system options).after h).wallet = some ⟨session, false⟩)
    (hsettled : ((system options).after h).settled = true)
    (hstuck : ¬Stuck ((system options).after h)) :
    (system options).CanReach h fun h' => ¬(system options).Always CallsProper h' := by
  refine (exists_drained hh).trans fun h' hh' heq => ?_
  have hwallet' : ((system options).after h').wallet = some ⟨session, false⟩ := by rw [heq, hwallet]
  have hsync' : ((system options).after h').m_isSynchronized = true := by rw [heq, hsettled]
  by_cases hidle : ((system options).after h).m_isOptimizing = false
  · exact exists_improper_start hh' hwallet' hsync' (by rw [heq, hidle])
  · rw [Bool.not_eq_false] at hidle
    obtain ⟨delay, hdelay⟩ : ∃ delay, ((system options).after h).waiting = some delay :=
      Option.ne_none_iff_exists'.mp fun hnone => hstuck ⟨hidle, hnone⟩
    have hdelay' : ((system options).after h').waiting = some delay := by rw [heq, hdelay]
    -- the wait that is left ends with another number of outputs, and the loop with it
    have hover : (system options).Admissible
        (.delayOver (some (delay.trackNumUnlockedOutputs + 1)) :: h') :=
      .cons (Option.isSome_of_eq_some hdelay') hh'
    have hafter := resume_changed hdelay' (Option.isSome_of_eq_some hwallet')
    have hstart := exists_improper_start hover ((congrArg State.wallet hafter).trans hwallet')
      ((congrArg State.m_isSynchronized hafter).trans hsync') (congrArg State.m_isOptimizing hafter)
    exact hstart.step

/-- An event that disturbs a run so far undisturbed makes an improper call or lets one follow. -/
theorem exists_improper (hcalm : Calm ((system options).after h)) {e : Event}
    (hh : (system options).Admissible (e :: h)) (he : ¬Undisturbed ((system options).after h) e) :
    (system options).CanReach (e :: h) fun h' => ¬(system options).Always CallsProper h' := by
  cases e with
  | openWallet =>
    have hbad (options : Options) (session session' : ℕ) :
        ¬(Call.mk (some ⟨session, false⟩) options session').Proper :=
      fun hproper => absurd hproper.2.2 (by simp)
    by_cases hround : RoundLeft ((system options).after h)
    · obtain ⟨delay, hdelay, hleft⟩ := hround
      exact exists_improper_resume hh rfl hdelay (hcalm.waiting delay hdelay).1 hleft (hbad _ _ _)
    · have hstale : ¬(((system options).after h).settled = false ∨
          Stuck ((system options).after h)) := fun hfresh => he ⟨hround, hfresh⟩
      rw [not_or, Bool.not_eq_false] at hstale
      exact exists_improper_stale hh rfl hstale.1 hstale.2
  | synchronizationProgressUpdated =>
    obtain ⟨delay, hdelay, hleft⟩ := not_not.mp he
    obtain ⟨wallet, hwallet⟩ := Option.isSome_iff_exists.mp hh.1
    have hafter : ((system options).after (.synchronizationProgressUpdated :: h)).wallet =
        some { wallet with synchronized := false } := by
      show ((system options).after h).wallet.map _ = _
      rw [hwallet]
      rfl
    refine exists_improper_resume hh (Option.isSome_of_eq_some hafter) hdelay
      (hcalm.waiting delay hdelay).1 hleft ?_
    rw [hafter]
    exact fun hproper => absurd hproper.2.2 (by simp)
  | setOptions options =>
    obtain ⟨⟨delay, hdelay, hleft⟩, hopen, hbad⟩ := by
      simpa only [Undisturbed, Classical.not_imp] using he
    refine exists_improper_resume hh hopen hdelay (hcalm.waiting delay hdelay).1 hleft ?_
    exact fun hproper => hbad ⟨hproper.1, hproper.2.1⟩
  | checkTimeout unspentOutputs =>
    obtain ⟨hauto, hrestart, hstart, hsettled⟩ := by
      simpa only [Undisturbed, Classical.not_imp] using he
    obtain ⟨wallet, hwallet⟩ := Option.isSome_iff_exists.mp hstart.2.1
    refine .here hh (not_always_of_call (mem_checkOptimization_iff.mpr
      ⟨hauto, hrestart, hstart, wallet, hwallet, rfl⟩) fun hproper => hsettled ?_)
    exact (hcalm.start_iff hstart hwallet).mp hproper |>.1
  | optimizationTimeout unspentOutputs =>
    obtain ⟨hstart, hbad⟩ := by simpa only [Undisturbed, Classical.not_imp] using he
    obtain ⟨wallet, hwallet⟩ := Option.isSome_iff_exists.mp hstart.2.1
    refine .here hh (not_always_of_call (mem_optimize_iff.mpr
      ⟨hstart, wallet, hwallet, rfl⟩) fun hproper => hbad ?_)
    exact (hcalm.start_iff hstart hwallet).mp hproper
  | closeWallet | dropWallet | walletInitCompleted error | synchronizationCompleted | deliver
  | delayOver unspentOutputs => exact absurd trivial he

end Continuations

/-- In a run without disturbance every call of optimizeWallet is a proper one; and whatever
disturbs such a run makes an improper call or lets one follow. -/
theorem callsProper_undisturbed (options : Options) {h : List Event}
    (hh : (system options).Always Undisturbed h) :
    (system options).Always CallsProper h ∧
      ∀ e, (system options).Admissible (e :: h) → ¬Undisturbed ((system options).after h) e →
        (system options).CanReach (e :: h) fun h' => ¬(system options).Always CallsProper h' := by
  refine ⟨?_, fun e hadmissible he => ?_⟩
  · exact hh.of_invariant (calm_initial options) (fun _ _ hs he => hs.step he)
      fun _ _ hs he => hs.callsProper he
  · have hcalm : Calm ((system options).after h) :=
      hh.invariant (calm_initial options) fun _ _ hs he => hs.step he
    exact exists_improper hcalm hadmissible he

/-- A wallet is open and synchronised, and the manager knows it. -/
def synchronizedWallet : List Event :=
  [.deliver, .synchronizationCompleted, .walletInitCompleted false, .openWallet]

/-- A block arrives in the first wait, and the wallet is closed in the third; the loop makes three
calls. -/
def undisturbedRun : List Event :=
  .delayOver (some 150) :: .closeWallet :: .delayOver (some 150) :: .delayOver (some 150) ::
    .deliver :: .synchronizationCompleted :: .checkTimeout (some 150) :: synchronizedWallet

theorem callsProper_undisturbed_run :
    (system enabledOptions).Always CallsProper undisturbedRun ∧
      (run ((system enabledOptions).after synchronizedWallet) (.checkTimeout (some 150))).2 =
        [⟨some ⟨0, true⟩, enabledOptions, 0⟩] :=
  ⟨(callsProper_undisturbed enabledOptions (by decide)).1, by decide⟩

/-- During the wait another wallet is opened, which has as many outputs. -/
def switchedDuringDelay : List Event :=
  .delayOver (some 150) :: .openWallet :: .closeWallet :: .checkTimeout (some 150) ::
    synchronizedWallet

/-- The optimisation timer expires before the check timer has seen that the option is gone. -/
def disabledBeforeTimeout : List Event :=
  .optimizationTimeout (some 150) :: .setOptions ⟨false, qstr "disabled"⟩ ::
    .checkTimeout (some 50) :: synchronizedWallet

/-- The loop goes on with a wallet that it has not started with and that is not synchronised, and
the timer starts it although the optimisation has been disabled. -/
theorem optimize_unguarded :
    (system enabledOptions).Admissible switchedDuringDelay ∧
      (run ((system enabledOptions).after switchedDuringDelay.tail) (.delayOver (some 150))).2 =
        [⟨some ⟨1, false⟩, enabledOptions, 0⟩] ∧
      ¬ (system enabledOptions).Always CallsProper switchedDuringDelay ∧
      (system enabledOptions).Admissible disabledBeforeTimeout ∧
      ¬ (system enabledOptions).Always CallsProper disabledBeforeTimeout := by
  decide

end ConcealDesktop.OptimizationManager
