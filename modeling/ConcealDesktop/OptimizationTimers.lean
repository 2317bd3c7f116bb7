import ConcealDesktop.OptimizationManager

/-! The timers of OptimizationManager. A handler that calls optimize() may wait in an event loop, in
which every other handler runs, so what is said about the timers and the waits is said of every
state between two handlers, however deep they are nested. What the handlers ask of the wallet and
of the settings may be answered differently each time. -/
namespace ConcealDesktop.OptimizationTimers
open EventDriven

/-- The ids that startTimer gives are not those of running timers. -/
structure TimerIds where
  next : List ℕ → ℕ
  next_notMem : ∀ ids, next ids ∉ ids

inductive Purpose where
  | check
  | optimization
deriving DecidableEq

/-- An optimize() that waits in delay(). -/
structure Wait where
  i : ℕ
  trackNumUnlockedOutputs : ℕ
deriving DecidableEq

structure State where
  /-- The source's -1 is `none`, here and below. -/
  m_checkTimerId : Option ℕ
  m_optimizationTimerId : Option ℕ
  m_currentOptimizationInterval : ℕ
  m_isSynchronized : Bool
  m_isOptimizing : Bool
  /-- The running timers and what they were started for, latest first. -/
  running : List (ℕ × Purpose)
  /-- The waits that are not over, the innermost first. -/
  active : List Wait
  /-- A wallet has been opened and not been closed since. -/
  opened : Bool
deriving DecidableEq

/-- What a handler finds while it runs. -/
structure World where
  isOpen : Bool
  trackingMode : Bool
  autoOptimizationStatus : QString
  unspentOutputs : Option ℕ
  ids : TimerIds

def World.getNumUnlockedOutputs (w : World) : Option ℕ :=
  if w.isOpen then w.unspentOutputs else some 0

namespace State

def startTimer (s : State) (purpose : Purpose) (ids : TimerIds) : State × ℕ :=
  let id := ids.next (s.running.map Prod.fst)
  ({ s with running := (id, purpose) :: s.running }, id)

def killTimer (s : State) (id : ℕ) : State :=
  { s with running := s.running.filter (·.1 != id) }

def walletOpened (s : State) (error : Bool) (ids : TimerIds) : State :=
  if error then s
  else
    let (s, id) := s.startTimer .check ids
    { s with m_checkTimerId := some id, opened := true }

def killCheckTimer (s : State) : State :=
  match s.m_checkTimerId with
  | none => s
  | some id => { s.killTimer id with m_checkTimerId := none }

def killOptimizationTimer (s : State) : State :=
  match s.m_optimizationTimerId with
  | none => s
  | some id => { s.killTimer id with m_optimizationTimerId := none }

def walletClosed (s : State) : State :=
  { { s with m_isSynchronized := false }.killCheckTimer.killOptimizationTimer with opened := false }

/-- The head of the loop in optimize(): the next wait, or the end. -/
def loop (s : State) (i numUnlockedOutputs : ℕ) : State :=
  if 100 < numUnlockedOutputs ∧ i < 3 then
    { s with active := ⟨i, numUnlockedOutputs⟩ :: s.active }
  else { s with m_isOptimizing := false }

/-- optimize() up to its first wait. An exception leaves m_isOptimizing set. -/
def optimize (s : State) (w : World) : State :=
  if s.m_isOptimizing then s
  else if w.trackingMode || !w.isOpen || !s.m_isSynchronized then s
  else
    let s := { s with m_isOptimizing := true }
    match w.getNumUnlockedOutputs with
    | none => s
    | some numUnlockedOutputs => s.loop 0 numUnlockedOutputs

/-- The rest of the loop body after the innermost wait. -/
def resume (s : State) (w : World) : State :=
  match s.active with
  | [] => s
  | wait :: outer =>
    let s := { s with active := outer }
    match w.getNumUnlockedOutputs with
    | none => s
    | some numUnlockedOutputs =>
      if wait.trackNumUnlockedOutputs ≠ numUnlockedOutputs then { s with m_isOptimizing := false }
      else s.loop (wait.i + 1) numUnlockedOutputs

/-- The end of ensureStarted, where no optimisation timer runs. -/
def startOptimization (s : State) (w : World) : State :=
  let s :=
    { s with m_currentOptimizationInterval := OptimizationManager.State.getOptimizationInterval }
  let (s, id) := s.startTimer .optimization w.ids
  { s with m_optimizationTimerId := some id }.optimize w

def ensureStarted (s : State) (w : World) : State :=
  if s.m_optimizationTimerId.isSome ∧
      s.m_currentOptimizationInterval = OptimizationManager.State.getOptimizationInterval then s
  else s.killOptimizationTimer.startOptimization w

def ensureStopped (s : State) : State :=
  if s.m_optimizationTimerId.isSome then
    { s.killOptimizationTimer with m_currentOptimizationInterval := 0 }
  else s

def checkOptimization (s : State) (w : World) : State :=
  if w.autoOptimizationStatus == qstr "enabled" && w.isOpen then s.ensureStarted w
  else s.ensureStopped

def timerEvent (s : State) (id : ℕ) (w : World) : State :=
  if s.m_checkTimerId = some id then s.checkOptimization w
  else if s.m_optimizationTimerId = some id then s.optimize w
  else s

end State

inductive Event where
  | walletOpened (error : Bool) (ids : TimerIds)
  | walletClosed
  | synchronizationProgressUpdated
  | synchronizationCompleted
  | timeout (id : ℕ) (w : World)
  /-- The event loop of the innermost delay() is over. -/
  | delayOver (w : World)

/-- No wallet is opened twice without being closed between, and only timers that run expire. -/
def enabled (s : State) : Event → Prop
  | .walletOpened error _ => error = true ∨ s.opened = false
  | .timeout id _ => id ∈ s.running.map Prod.fst
  | .delayOver _ => s.active ≠ []
  | .walletClosed | .synchronizationProgressUpdated | .synchronizationCompleted => True

def handle (s : State) : Event → State
  | .walletOpened error ids => s.walletOpened error ids
  | .walletClosed => s.walletClosed
  | .synchronizationProgressUpdated => { s with m_isSynchronized := false }
  | .synchronizationCompleted => { s with m_isSynchronized := true }
  | .timeout id w => s.timerEvent id w
  | .delayOver w => s.resume w

def system : EventSystem State Event where
  init := ⟨none, none, 0, false, false, [], [], false⟩
  enabled := enabled
  handle := handle

/-- The running timers of one purpose. -/
def State.timers (s : State) (purpose : Purpose) : List ℕ :=
  (s.running.filter (·.2 = purpose)).map Prod.fst

/-- The running timers are the recorded ones, so at most one for each purpose, none runs while no
wallet is open, and at most one optimize() waits. -/
structure TimersKept (s : State) : Prop where
  check : s.timers .check = s.m_checkTimerId.toList
  optimization : s.timers .optimization = s.m_optimizationTimerId.toList
  closed : s.opened = false → s.running = []
  oneLoop : s.active.length ≤ 1

/-- The timer for the checks is started first and runs until the wallet is closed. -/
def recorded (check optimization : Option ℕ) : List (ℕ × Purpose) :=
  optimization.toList.map (·, .optimization) ++ check.toList.map (·, .check)

structure Invariant (s : State) : Prop where
  running : s.running = recorded s.m_checkTimerId s.m_optimizationTimerId
  distinct : ∀ id ∈ s.m_optimizationTimerId, s.m_checkTimerId ≠ some id
  opened : s.opened = s.m_checkTimerId.isSome
  closed : s.m_checkTimerId = none → s.m_optimizationTimerId = none
  optimizing : s.active ≠ [] → s.m_isOptimizing = true
  oneLoop : s.active.length ≤ 1

section Steps

variable {s : State}

theorem invariant_initial : Invariant system.init where
  running := rfl
  distinct := fun id h => by cases h
  opened := rfl
  closed := fun _ => rfl
  optimizing := fun h => absurd rfl h
  oneLoop := Nat.zero_le 1

theorem Invariant.timersKept (hs : Invariant s) : TimersKept s := by
  refine ⟨?_, ?_, fun hclosed => ?_, hs.oneLoop⟩
  · rw [State.timers, hs.running]
    cases s.m_checkTimerId <;> cases s.m_optimizationTimerId <;> rfl
  · rw [State.timers, hs.running]
    cases s.m_checkTimerId <;> cases s.m_optimizationTimerId <;> rfl
  · have hcheck : s.m_checkTimerId = none := by
      rw [← Option.isNone_iff_eq_none, ← Option.not_isSome, ← hs.opened, hclosed]
      rfl
    rw [hs.running, hs.closed hcheck, hcheck]
    rfl

/-- The assertion of walletOpened holds. -/
theorem Invariant.checkTimer_eq_none (hs : Invariant s) (hclosed : s.opened = false) :
    s.m_checkTimerId = none := by
  have hopened := hs.opened
  rw [hclosed] at hopened
  exact Option.not_isSome_iff_eq_none.mp (by rw [← hopened]; exact Bool.false_ne_true)

theorem invariant_walletOpened (hs : Invariant s) (hclosed : s.opened = false) (ids : TimerIds) :
    Invariant (s.walletOpened false ids) := by
  have hcheck := hs.checkTimer_eq_none hclosed
  have hnone := hs.closed hcheck
  have hrunning : s.running = [] := by
    rw [hs.running, hcheck, hnone]
    rfl
  constructor
  · show (_, Purpose.check) :: s.running = recorded (some _) s.m_optimizationTimerId
    rw [hrunning, hnone]
    rfl
  · intro id hid
    change s.m_optimizationTimerId = some id at hid
    rw [hnone] at hid
    cases hid
  · rfl
  · exact fun h => by cases h
  · exact hs.optimizing
  · exact hs.oneLoop

theorem killOptimizationTimer_eq (hs : Invariant s) : s.killOptimizationTimer =
    { s with
      m_optimizationTimerId := none
      running := recorded s.m_checkTimerId none } := by
  unfold State.killOptimizationTimer
  cases hoptimization : s.m_optimizationTimerId with
  | none =>
    have hrunning := hs.running
    rw [hoptimization] at hrunning
    obtain ⟨check, optimization, interval, sync, optimizing, running, active, opened⟩ := s
    cases hoptimization
    change running = recorded check none at hrunning
    rw [hrunning]
  | some id =>
    have hrunning := hs.running
    rw [hoptimization] at hrunning
    have hfilter : s.running.filter (·.1 != id) = recorded s.m_checkTimerId none := by
      rw [hrunning]
      cases hcheck : s.m_checkTimerId with
      | none => simp [recorded]
      | some other =>
        have hne : other ≠ id := fun h => hs.distinct id hoptimization (by rw [hcheck, h])
        simp [recorded, hne]
    dsimp only [State.killTimer]
    rw [hfilter]

theorem invariant_killOptimizationTimer (hs : Invariant s) : Invariant s.killOptimizationTimer := by
  rw [killOptimizationTimer_eq hs]
  exact ⟨rfl, fun _ => nofun, hs.opened, fun _ => rfl, hs.optimizing, hs.oneLoop⟩

theorem walletClosed_eq (hs : Invariant s) : s.walletClosed =
    { s with
      m_isSynchronized := false
      m_checkTimerId := none
      m_optimizationTimerId := none
      running := []
      opened := false } := by
  unfold State.walletClosed State.killCheckTimer State.killOptimizationTimer
  have hrunning := hs.running
  cases hcheck : s.m_checkTimerId with
  | none =>
    have hnone := hs.closed hcheck
    rw [hcheck, hnone] at hrunning
    simp only [hnone]
    rw [hrunning]
    rfl
  | some id =>
    cases hoptimization : s.m_optimizationTimerId with
    | none =>
      rw [hcheck, hoptimization] at hrunning
      simp [State.killTimer, hrunning, recorded]
    | some other =>
      rw [hcheck, hoptimization] at hrunning
      simp [State.killTimer, hrunning, recorded]

theorem invariant_walletClosed (hs : Invariant s) : Invariant s.walletClosed := by
  rw [walletClosed_eq hs]
  exact ⟨rfl, fun _ => nofun, rfl, fun _ => rfl, hs.optimizing, hs.oneLoop⟩

/-- What optimize() and its loop leave alone, and how many of them wait. -/
structure SameTimers (s t : State) : Prop where
  check : t.m_checkTimerId = s.m_checkTimerId
  optimization : t.m_optimizationTimerId = s.m_optimizationTimerId
  running : t.running = s.running
  opened : t.opened = s.opened
  optimizing : t.active ≠ [] → t.m_isOptimizing = true
  oneLoop : t.active.length ≤ 1

theorem SameTimers.invariant {t : State} (h : SameTimers s t) (hs : Invariant s) :
    Invariant t where
  running := by rw [h.running, h.check, h.optimization]; exact hs.running
  distinct := by rw [h.check, h.optimization]; exact hs.distinct
  opened := by rw [h.opened, h.check]; exact hs.opened
  closed := by rw [h.check, h.optimization]; exact hs.closed
  optimizing := h.optimizing
  oneLoop := h.oneLoop

/-- The loop goes on only where no other one waits. -/
theorem sameTimers_loop (hactive : s.active = []) (hoptimizing : s.m_isOptimizing = true)
    (i numUnlockedOutputs : ℕ) : SameTimers s (s.loop i numUnlockedOutputs) := by
  unfold State.loop
  split_ifs
  · refine ⟨rfl, rfl, rfl, rfl, fun _ => hoptimizing, ?_⟩
    rw [hactive]
    exact le_rfl
  · refine ⟨rfl, rfl, rfl, rfl, fun h => absurd hactive h, ?_⟩
    rw [hactive]
    exact Nat.zero_le 1

theorem sameTimers_optimize (hs : Invariant s) (w : World) : SameTimers s (s.optimize w) := by
  have hrefl : SameTimers s s := ⟨rfl, rfl, rfl, rfl, hs.optimizing, hs.oneLoop⟩
  unfold State.optimize
  split_ifs with hoptimizing hguards
  · exact hrefl
  · exact hrefl
  · -- m_isOptimizing is not set, so no optimize() waits
    have hactive : s.active = [] := by
      by_contra hne
      exact hoptimizing (hs.optimizing hne)
    cases w.getNumUnlockedOutputs with
    | none => exact ⟨rfl, rfl, rfl, rfl, fun _ => rfl, hs.oneLoop⟩
    | some n =>
      have hloop := sameTimers_loop (s := { s with m_isOptimizing := true }) hactive rfl 0 n
      exact ⟨hloop.check, hloop.optimization, hloop.running, hloop.opened, hloop.optimizing,
        hloop.oneLoop⟩

theorem sameTimers_resume (hs : Invariant s) (w : World) : SameTimers s (s.resume w) := by
  unfold State.resume
  cases hactive : s.active with
  | nil => exact ⟨rfl, rfl, rfl, rfl, hs.optimizing, hs.oneLoop⟩
  | cons wait outer =>
    have hoptimizing : s.m_isOptimizing = true := hs.optimizing (by rw [hactive]; simp)
    have houter : outer = [] := by
      have hone := hs.oneLoop
      rw [hactive, List.length_cons] at hone
      exact List.length_eq_zero_iff.mp (by omega)
    subst houter
    dsimp only
    cases w.getNumUnlockedOutputs with
    | none => exact ⟨rfl, rfl, rfl, rfl, fun _ => hoptimizing, Nat.zero_le 1⟩
    | some n =>
      dsimp only
      split_ifs
      · exact ⟨rfl, rfl, rfl, rfl, fun h => absurd rfl h, Nat.zero_le 1⟩
      · have hloop := sameTimers_loop (s := { s with active := [] }) rfl hoptimizing (wait.i + 1) n
        exact ⟨hloop.check, hloop.optimization, hloop.running, hloop.opened, hloop.optimizing,
          hloop.oneLoop⟩

/-- The optimisation timer is started beside a check timer with another id. -/
theorem invariant_startOptimization (hs : Invariant s) (hnone : s.m_optimizationTimerId = none)
    (hcheck : s.m_checkTimerId.isSome = true) (w : World) : Invariant (s.startOptimization w) := by
  have hfresh := w.ids.next_notMem (s.running.map Prod.fst)
  have hstarted : Invariant
      { s with
        m_currentOptimizationInterval := OptimizationManager.State.getOptimizationInterval
        running := (w.ids.next (s.running.map Prod.fst), .optimization) :: s.running
        m_optimizationTimerId := some (w.ids.next (s.running.map Prod.fst)) } := by
    constructor
    · show _ :: s.running = recorded s.m_checkTimerId (some _)
      rw [hs.running, hnone]
      rfl
    · intro id hid hsame
      have hsome : some (w.ids.next (s.running.map Prod.fst)) = some id := hid
      have hmem : id ∈ s.running.map Prod.fst := by
        have hchecked : s.m_checkTimerId = some id := hsame
        rw [hs.running, hchecked]
        simp [recorded]
      rw [Option.some.inj hsome] at hfresh
      exact hfresh hmem
    · exact hs.opened
    · intro h
      change s.m_checkTimerId = none at h
      rw [h] at hcheck
      cases hcheck
    · exact hs.optimizing
    · exact hs.oneLoop
  exact (sameTimers_optimize hstarted w).invariant hstarted

theorem invariant_checkOptimization (hs : Invariant s) (hcheck : s.m_checkTimerId.isSome = true)
    (w : World) : Invariant (s.checkOptimization w) := by
  have hkilled := invariant_killOptimizationTimer hs
  unfold State.checkOptimization State.ensureStarted State.ensureStopped
  split_ifs
  · exact hs
  · apply invariant_startOptimization hkilled
    · rw [killOptimizationTimer_eq hs]
    · rw [killOptimizationTimer_eq hs]
      exact hcheck
  · exact ⟨hkilled.running, hkilled.distinct, hkilled.opened, hkilled.closed, hkilled.optimizing,
      hkilled.oneLoop⟩
  · exact hs

theorem invariant_timerEvent (hs : Invariant s) (id : ℕ) (w : World) :
    Invariant (s.timerEvent id w) := by
  unfold State.timerEvent
  split_ifs with hcheck hoptimization
  · exact invariant_checkOptimization hs (by rw [hcheck]; rfl) w
  · exact (sameTimers_optimize hs w).invariant hs
  · exact hs

theorem invariant_handle {e : Event} (hs : Invariant s) (hen : enabled s e) :
    Invariant (handle s e) := by
  cases e with
  | walletOpened error ids =>
    cases error with
    | true => exact hs
    | false => exact invariant_walletOpened hs (hen.resolve_left Bool.false_ne_true) ids
  | walletClosed => exact invariant_walletClosed hs
  | synchronizationProgressUpdated =>
    exact ⟨hs.running, hs.distinct, hs.opened, hs.closed, hs.optimizing, hs.oneLoop⟩
  | synchronizationCompleted =>
    exact ⟨hs.running, hs.distinct, hs.opened, hs.closed, hs.optimizing, hs.oneLoop⟩
  | timeout id w => exact invariant_timerEvent hs id w
  | delayOver w => exact (sameTimers_resume hs w).invariant hs

end Steps

/-- In every run in which the wallet is closed before it is opened again, the timers are kept, whatever
runs during the waits. -/
theorem timersKept_of_admissible (h : List Event) (hrun : system.Admissible h) :
    TimersKept (system.after h) := by
  have hinv : Invariant (system.after h) :=
    EventSystem.Always.invariant (I := Invariant) invariant_initial
      (fun _ _ hs hen => invariant_handle hs hen) hrun
  exact hinv.timersKept

/-- An id that is larger than all others. -/
def largerIds : TimerIds where
  next ids := ids.sum + 1
  next_notMem ids h := by
    have := List.le_sum_of_mem h
    omega

/-- An open wallet with many outputs that is to be optimised. -/
def busyWorld : World := ⟨true, false, qstr "enabled", some 150, largerIds⟩

/-- During the wait of the first optimize() the wallet is closed, another one is opened and its check
timer expires; then the wait is over. -/
def reopenedDuringDelay : List Event :=
  [.delayOver busyWorld, .timeout 1 busyWorld, .walletOpened false largerIds, .walletClosed,
    .timeout 1 busyWorld, .synchronizationCompleted, .walletOpened false largerIds]

instance decidableEnabled (s : State) : (e : Event) → Decidable (system.enabled s e)
  | .walletOpened error _ => inferInstanceAs (Decidable (error = true ∨ s.opened = false))
  | .timeout id _ => inferInstanceAs (Decidable (id ∈ s.running.map Prod.fst))
  | .delayOver _ => inferInstanceAs (Decidable (s.active ≠ []))
  | .walletClosed | .synchronizationProgressUpdated | .synchronizationCompleted =>
    inferInstanceAs (Decidable True)

theorem timersKept_reopenedDuringDelay :
    system.Admissible reopenedDuringDelay ∧ TimersKept (system.after reopenedDuringDelay) :=
  ⟨by decide, timersKept_of_admissible reopenedDuringDelay (by decide)⟩

/-! ### The life of the wallets -/

def Wait.ofDelay (delay : OptimizationManager.Delay) : Wait :=
  ⟨delay.i, delay.trackNumUnlockedOutputs⟩

/-- The manager of the open wallets agrees with its timers and waits. -/
structure Agrees (m : OptimizationManager.State) (s : State) : Prop where
  check : m.m_checkTimerId = s.m_checkTimerId.isSome
  optimization : m.m_optimizationTimerId = s.m_optimizationTimerId.isSome
  interval : m.m_currentOptimizationInterval = s.m_currentOptimizationInterval
  synchronized : m.m_isSynchronized = s.m_isSynchronized
  optimizing : m.m_isOptimizing = s.m_isOptimizing
  active : s.active = (m.waiting.map Wait.ofDelay).toList
  waiting : m.waiting.isSome = true → m.m_isOptimizing = true

/-- What the handlers find in the life of the wallets. -/
def worldOf (m : OptimizationManager.State) (unspentOutputs : Option ℕ) (ids : TimerIds) : World :=
  ⟨m.wallet.isSome, m.options.trackingMode, m.options.autoOptimizationStatus, unspentOutputs, ids⟩

/-- The event for the timers that an event in the life of the wallets is, if it is one. -/
def eventOf (ids : TimerIds) (m : OptimizationManager.State) (s : State) :
    OptimizationManager.Event → Option Event
  | .openWallet | .dropWallet | .setOptions _ | .synchronizationProgressUpdated
  | .synchronizationCompleted => none
  | .closeWallet => if m.wallet.isSome then some .walletClosed else none
  | .walletInitCompleted error => some (.walletOpened error ids)
  | .deliver => match m.posted with
    | [] => none
    | .synchronizationProgressUpdated :: _ => some .synchronizationProgressUpdated
    | .synchronizationCompleted :: _ => some .synchronizationCompleted
  | .checkTimeout unspentOutputs =>
    s.m_checkTimerId.map fun id => .timeout id (worldOf m unspentOutputs ids)
  | .optimizationTimeout unspentOutputs =>
    s.m_optimizationTimerId.map fun id => .timeout id (worldOf m unspentOutputs ids)
  | .delayOver unspentOutputs => some (.delayOver (worldOf m unspentOutputs ids))

section Simulation

variable {m : OptimizationManager.State} {s : State}

theorem getNumUnlockedOutputs_worldOf (m : OptimizationManager.State) (unspentOutputs : Option ℕ)
    (ids : TimerIds) : (worldOf m unspentOutputs ids).getNumUnlockedOutputs =
      m.getNumUnlockedOutputs unspentOutputs := rfl

theorem Agrees.loop (h : Agrees m s) (hwaiting : m.waiting = none)
    (hoptimizing : m.m_isOptimizing = true) (session i n : ℕ) :
    Agrees (m.loop session i n).1 (s.loop i n) := by
  have hactive := h.active
  rw [hwaiting] at hactive
  unfold OptimizationManager.State.loop State.loop
  split_ifs
  · refine ⟨h.check, h.optimization, h.interval, h.synchronized, h.optimizing, ?_,
      fun _ => hoptimizing⟩
    show _ :: s.active = _
    rw [hactive]
    rfl
  · exact ⟨h.check, h.optimization, h.interval, h.synchronized, rfl, hactive, nofun⟩

theorem Agrees.optimize (h : Agrees m s) (unspentOutputs : Option ℕ) (ids : TimerIds) :
    Agrees (m.optimize unspentOutputs).1 (s.optimize (worldOf m unspentOutputs ids)) := by
  unfold OptimizationManager.State.optimize State.optimize
  rw [← h.optimizing, ← h.synchronized]
  cases hoptimizing : m.m_isOptimizing with
  | true => exact h
  | false =>
    have hwaiting : m.waiting = none := by
      by_contra hne
      have hset := h.waiting (Option.isSome_iff_ne_none.mpr hne)
      rw [hoptimizing] at hset
      cases hset
    have hset (wallet : Option OptimizationManager.OpenWallet) :
        Agrees { m with wallet := wallet, m_isOptimizing := true }
          { s with m_isSynchronized := m.m_isSynchronized, m_isOptimizing := true } :=
      ⟨h.check, h.optimization, h.interval, rfl, rfl, h.active, fun _ => rfl⟩
    rw [getNumUnlockedOutputs_worldOf]
    cases hwallet : m.wallet with
    | none =>
      simp only [worldOf, hwallet, Option.isSome_none, Bool.not_false, Bool.or_true, Bool.true_or,
        Bool.false_eq_true, if_true, if_false]
      exact h
    | some wallet =>
      cases hguards : m.options.trackingMode || !m.m_isSynchronized with
      | true =>
        have hguards' : (m.options.trackingMode || !true || !m.m_isSynchronized) = true := by
          simpa using hguards
        simp only [worldOf, hwallet, Option.isSome_some, hguards', Bool.false_eq_true, if_true,
          if_false]
        exact h
      | false =>
        have hguards' : (m.options.trackingMode || !true || !m.m_isSynchronized) = false := by
          simpa using hguards
        simp only [worldOf, hwallet, Option.isSome_some, hguards', Bool.false_eq_true, if_false,
          OptimizationManager.State.getNumUnlockedOutputs, if_true]
        cases unspentOutputs with
        | none => exact hset (some wallet)
        | some n => exact (hset (some wallet)).loop hwaiting rfl wallet.session 0 n

theorem Agrees.resume (h : Agrees m s) (unspentOutputs : Option ℕ) (ids : TimerIds) :
    Agrees (m.resume unspentOutputs).1 (s.resume (worldOf m unspentOutputs ids)) := by
  unfold OptimizationManager.State.resume State.resume
  rw [getNumUnlockedOutputs_worldOf]
  cases hwaiting : m.waiting with
  | none =>
    have hactive := h.active
    rw [hwaiting] at hactive
    rw [hactive]
    exact h
  | some delay =>
    have hactive := h.active
    have hoptimizing := h.waiting (by rw [hwaiting]; rfl)
    rw [hwaiting] at hactive
    rw [hactive]
    have hleft : Agrees { m with waiting := none } { s with active := [] } :=
      ⟨h.check, h.optimization, h.interval, h.synchronized, h.optimizing, rfl, nofun⟩
    dsimp only [Option.map_some, Option.toList_some]
    cases m.getNumUnlockedOutputs unspentOutputs with
    | none => exact hleft
    | some n =>
      dsimp only [Wait.ofDelay]
      by_cases hsame : delay.trackNumUnlockedOutputs = n
      · simp only [hsame, ne_eq, not_true_eq_false, if_false]
        have hloop := hleft.loop rfl hoptimizing delay.session (delay.i + 1) n
        unfold OptimizationManager.State.loop at hloop ⊢
        split_ifs at hloop ⊢ with hnext
        · exact hloop
        · exact hloop
      · simp only [hsame, ne_eq, not_false_eq_true, if_true]
        exact ⟨h.check, h.optimization, h.interval, h.synchronized, rfl, rfl, nofun⟩

theorem Agrees.killCheckTimer (h : Agrees m s) :
    Agrees { m with m_checkTimerId := false } s.killCheckTimer := by
  unfold State.killCheckTimer
  cases hcheck : s.m_checkTimerId with
  | none =>
    refine ⟨?_, h.optimization, h.interval, h.synchronized, h.optimizing, h.active, h.waiting⟩
    rw [hcheck]
    rfl
  | some id =>
    exact ⟨rfl, h.optimization, h.interval, h.synchronized, h.optimizing, h.active, h.waiting⟩

theorem Agrees.killOptimizationTimer (h : Agrees m s) :
    Agrees { m with m_optimizationTimerId := false } s.killOptimizationTimer := by
  unfold State.killOptimizationTimer
  cases hoptimization : s.m_optimizationTimerId with
  | none =>
    refine ⟨h.check, ?_, h.interval, h.synchronized, h.optimizing, h.active, h.waiting⟩
    rw [hoptimization]
    rfl
  | some id =>
    exact ⟨h.check, rfl, h.interval, h.synchronized, h.optimizing, h.active, h.waiting⟩

theorem Agrees.walletClosed (h : Agrees m s) : Agrees m.walletClosed s.walletClosed := by
  have hsynchronized : Agrees { m with m_isSynchronized := false }
      { s with m_isSynchronized := false } :=
    ⟨h.check, h.optimization, h.interval, rfl, h.optimizing, h.active, h.waiting⟩
  have hkilled := hsynchronized.killCheckTimer.killOptimizationTimer
  exact ⟨hkilled.check, hkilled.optimization, hkilled.interval, hkilled.synchronized,
    hkilled.optimizing, hkilled.active, hkilled.waiting⟩

theorem Agrees.checkOptimization (h : Agrees m s) (unspentOutputs : Option ℕ) (ids : TimerIds) :
    Agrees (m.checkOptimization unspentOutputs).1
      (s.checkOptimization (worldOf m unspentOutputs ids)) := by
  have hkilled := h.killOptimizationTimer
  unfold OptimizationManager.State.checkOptimization State.checkOptimization
    OptimizationManager.State.ensureStarted State.ensureStarted
    OptimizationManager.State.ensureStopped State.ensureStopped
  rw [← h.optimization, ← h.interval]
  have hguard : (m.options.autoOptimization && m.wallet.isSome) =
      ((worldOf m unspentOutputs ids).autoOptimizationStatus == qstr "enabled" &&
        (worldOf m unspentOutputs ids).isOpen) := rfl
  rw [← hguard]
  split_ifs with hstart htimer hstop
  · exact h
  · have hstarted : Agrees
        { m with
          m_currentOptimizationInterval := OptimizationManager.State.getOptimizationInterval
          m_optimizationTimerId := true }
        (({ s.killOptimizationTimer with
            m_currentOptimizationInterval := OptimizationManager.State.getOptimizationInterval
            running := (ids.next (s.killOptimizationTimer.running.map Prod.fst), .optimization) ::
              s.killOptimizationTimer.running
            m_optimizationTimerId :=
              some (ids.next (s.killOptimizationTimer.running.map Prod.fst)) } : State)) :=
      ⟨hkilled.check, rfl, rfl, hkilled.synchronized, hkilled.optimizing, hkilled.active,
        hkilled.waiting⟩
    exact hstarted.optimize unspentOutputs ids
  · exact ⟨hkilled.check, hkilled.optimization, rfl, hkilled.synchronized, hkilled.optimizing,
      hkilled.active, hkilled.waiting⟩
  · exact h

/-- The model of the open wallets goes step by step with the timers: it has the handlers of the same
source and records of each timer whether it runs. -/
theorem Agrees.handle (h : Agrees m s)
    (hdistinct : ∀ id ∈ s.m_optimizationTimerId, s.m_checkTimerId ≠ some id) (ids : TimerIds)
    {e : OptimizationManager.Event} (hen : OptimizationManager.enabled m e) :
    Agrees (OptimizationManager.handle m e)
      ((eventOf ids m s e).elim s (OptimizationTimers.handle s)) := by
  have hsame (wallet : Option OptimizationManager.OpenWallet) (sessions : ℕ)
      (options : OptimizationManager.Options) (posted : List OptimizationManager.Signal) :
      Agrees { m with wallet := wallet, sessions := sessions, options := options, posted := posted }
        s :=
    ⟨h.check, h.optimization, h.interval, h.synchronized, h.optimizing, h.active, h.waiting⟩
  cases e with
  | openWallet => exact hsame _ _ _ _
  | dropWallet => exact hsame _ _ _ _
  | setOptions options => exact hsame _ _ _ _
  | synchronizationProgressUpdated => exact hsame _ _ _ _
  | synchronizationCompleted => exact hsame _ _ _ _
  | closeWallet =>
    show Agrees m.close ((if m.wallet.isSome then some Event.walletClosed else none).elim _ _)
    unfold OptimizationManager.State.close
    split_ifs
    · exact (hsame none m.sessions m.options m.posted).walletClosed
    · exact h
  | walletInitCompleted error =>
    cases error with
    | true => exact h
    | false =>
      exact ⟨rfl, h.optimization, h.interval, h.synchronized, h.optimizing, h.active, h.waiting⟩
  | deliver =>
    show Agrees m.deliver ((eventOf ids m s .deliver).elim s (OptimizationTimers.handle s))
    unfold OptimizationManager.State.deliver eventOf
    cases m.posted with
    | nil => exact h
    | cons signal rest =>
      cases signal with
      | synchronizationProgressUpdated =>
        exact ⟨h.check, h.optimization, h.interval, rfl, h.optimizing, h.active, h.waiting⟩
      | synchronizationCompleted =>
        exact ⟨h.check, h.optimization, h.interval, rfl, h.optimizing, h.active, h.waiting⟩
  | checkTimeout unspentOutputs =>
    have hruns : s.m_checkTimerId.isSome = true := h.check.symm.trans hen
    obtain ⟨id, hid⟩ := Option.isSome_iff_exists.mp hruns
    have hevent : eventOf ids m s (.checkTimeout unspentOutputs) =
        some (.timeout id (worldOf m unspentOutputs ids)) := by
      show s.m_checkTimerId.map _ = _
      rw [hid]
      rfl
    rw [hevent]
    show Agrees _ (s.timerEvent id _)
    rw [State.timerEvent, if_pos hid]
    exact h.checkOptimization unspentOutputs ids
  | optimizationTimeout unspentOutputs =>
    have hruns : s.m_optimizationTimerId.isSome = true := h.optimization.symm.trans hen
    obtain ⟨id, hid⟩ := Option.isSome_iff_exists.mp hruns
    have hevent : eventOf ids m s (.optimizationTimeout unspentOutputs) =
        some (.timeout id (worldOf m unspentOutputs ids)) := by
      show s.m_optimizationTimerId.map _ = _
      rw [hid]
      rfl
    rw [hevent]
    show Agrees _ (s.timerEvent id _)
    rw [State.timerEvent, if_neg (hdistinct id hid), if_pos hid]
    exact h.optimize unspentOutputs ids
  | delayOver unspentOutputs => exact h.resume unspentOutputs ids

end Simulation

end ConcealDesktop.OptimizationTimers
