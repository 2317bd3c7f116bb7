import Mathlib.Data.Nat.Find
import Mathlib.Order.WellFounded
import ConcealDesktop.Library.Loops

/-! The waits of the frames. Each compares the time of day with a time of day computed at its start,
and goes on processing events while the first is the earlier one. Both are taken modulo a day. -/
namespace ConcealDesktop
open Loops

def msecsPerDay : ℕ := 24 * 60 * 60 * 1000

/-- A time of day in milliseconds since midnight. -/
abbrev QTime := Fin msecsPerDay

namespace QTime

/-- The time of day at an instant, which is given in milliseconds since some midnight. -/
def ofInstant (instant : ℕ) : QTime := ⟨instant % msecsPerDay, Nat.mod_lt _ (by decide)⟩

def addSecs (time : QTime) (seconds : ℕ) : QTime := ofInstant (time.val + 1000 * seconds)

theorem lt_iff (s t : ℕ) : ofInstant s < ofInstant t ↔ s % msecsPerDay < t % msecsPerDay :=
  Fin.lt_def

theorem addSecs_ofInstant (instant seconds : ℕ) :
    (ofInstant instant).addSecs seconds = ofInstant (instant + 1000 * seconds) :=
  Fin.ext (Nat.mod_add_mod _ _ _)

end QTime

/-- The instants at which a wait reads the clock, the first one at its start. The clock advances from
one reading to the next by the time that processEvents takes, which is at most a day. -/
structure Clock where
  reading : ℕ → ℕ
  advances : ∀ i, reading i < reading (i + 1)
  gap_le : ∀ i, reading (i + 1) ≤ reading i + msecsPerDay

namespace Clock

variable (clock : Clock)

def currentTime (i : ℕ) : QTime := QTime.ofInstant (clock.reading i)

/-- The wait of `seconds` that starts at the first reading is left at reading `n`. -/
def Leaves (seconds n : ℕ) : Prop :=
  let dieTime := (clock.currentTime 0).addSecs seconds
  LeftIn (count fun i => clock.currentTime i < dieTime) 1 n

def deadline (seconds : ℕ) : ℕ := clock.reading 0 + 1000 * seconds

/-- The first reading that is taken `seconds` or more after the start. -/
def FirstLate (seconds n : ℕ) : Prop :=
  1 ≤ n ∧ (∀ i, 1 ≤ i → i < n → clock.reading i < clock.deadline seconds) ∧
    clock.deadline seconds ≤ clock.reading n

/-- The wait is left at the first late reading. -/
def LeavesInTime (seconds : ℕ) : Prop :=
  ∃ n, clock.FirstLate seconds n ∧ clock.Leaves seconds n

/-- The readings up to the first late one are all taken on the day of the deadline. -/
def ReadOnDeadlineDay (seconds : ℕ) : Prop :=
  ∀ n, clock.FirstLate seconds n → ∀ i, 1 ≤ i → i ≤ n →
    clock.reading i / msecsPerDay = clock.deadline seconds / msecsPerDay

end Clock

/-- OverviewFrame::delay. -/
def OverviewFrame.delay (clock : Clock) (n : ℕ) : Prop := clock.Leaves 1 n

/-- MainWindow::delay. -/
def MainWindow.delay (clock : Clock) (n : ℕ) : Prop := clock.Leaves 2 n

namespace Clock

variable {clock : Clock} {seconds n : ℕ}

theorem strictMono_reading (clock : Clock) : StrictMono clock.reading :=
  strictMono_nat_of_lt_succ clock.advances

theorem start_lt_reading {i : ℕ} (hi : 1 ≤ i) : clock.reading 0 < clock.reading i :=
  clock.strictMono_reading hi

/-- The readings pass every instant. -/
theorem exists_firstLate (clock : Clock) (seconds : ℕ) : ∃ n, clock.FirstLate seconds n := by
  have hlate : ∃ n, 1 ≤ n ∧ clock.deadline seconds ≤ clock.reading n :=
    ⟨clock.deadline seconds + 1, Nat.succ_pos _,
      (Nat.le_succ _).trans clock.strictMono_reading.le_apply⟩
  refine ⟨Nat.find hlate, (Nat.find_spec hlate).1, ?_, (Nat.find_spec hlate).2⟩
  intro i hi hlt
  by_contra hle
  exact Nat.find_min hlate hlt ⟨hi, not_lt.mp hle⟩

theorem FirstLate.unique {m : ℕ} (hn : clock.FirstLate seconds n)
    (hm : clock.FirstLate seconds m) : n = m := by
  have hle {n m : ℕ} (hn : clock.FirstLate seconds n) (hm : clock.FirstLate seconds m) : n ≤ m := by
    by_contra hlt
    exact absurd (hn.2.1 m hm.1 (not_le.mp hlt)) (not_lt.mpr hm.2.2)
  exact le_antisymm (hle hn hm) (hle hm hn)

theorem leaves_iff : clock.Leaves seconds n ↔
    1 ≤ n ∧ (∀ i, 1 ≤ i → i < n →
      clock.reading i % msecsPerDay < clock.deadline seconds % msecsPerDay) ∧
    clock.deadline seconds % msecsPerDay ≤ clock.reading n % msecsPerDay := by
  unfold Leaves currentTime
  simp only [QTime.addSecs_ofInstant, leftIn_count_iff, QTime.lt_iff, not_lt]
  rfl

/-- A reading before the deadline has an earlier time of day exactly if it is taken on the same
day, since the deadline is less than a day after the start. -/
theorem early_iff {start due t : ℕ} (hstart : start < t) (hdue : due < start + msecsPerDay)
    (ht : t < due) :
    t % msecsPerDay < due % msecsPerDay ↔ t / msecsPerDay = due / msecsPerDay := by
  unfold msecsPerDay at *
  omega

/-- So has a reading that is at most a day late. -/
theorem late_iff {due t : ℕ} (hdue : due ≤ t) (ht : t < due + msecsPerDay) :
    due % msecsPerDay ≤ t % msecsPerDay ↔ t / msecsPerDay = due / msecsPerDay := by
  unfold msecsPerDay at *
  omega

/-- The first late reading follows one before the deadline. -/
theorem FirstLate.lt_add_day (hn : clock.FirstLate seconds n) (hpos : 0 < seconds) :
    clock.reading n < clock.deadline seconds + msecsPerDay := by
  obtain ⟨m, rfl⟩ : ∃ m, n = m + 1 := ⟨n - 1, by have := hn.1; omega⟩
  have hgap := clock.gap_le m
  have hbefore : clock.reading m < clock.deadline seconds := by
    cases m with
    | zero =>
      unfold deadline
      omega
    | succ m => exact hn.2.1 (m + 1) (Nat.succ_pos m) (Nat.lt_succ_self _)
  omega

theorem leavesInTime_iff (clock : Clock) {seconds : ℕ} (hpos : 0 < seconds)
    (hday : 1000 * seconds < msecsPerDay) :
    clock.LeavesInTime seconds ↔ clock.ReadOnDeadlineDay seconds := by
  have hdue : clock.deadline seconds < clock.reading 0 + msecsPerDay := Nat.add_lt_add_left hday _
  have hearly {n i : ℕ} (hn : clock.FirstLate seconds n) (hi : 1 ≤ i) (hlt : i < n) :=
    early_iff (start_lt_reading hi) hdue (hn.2.1 i hi hlt)
  have hlate {n : ℕ} (hn : clock.FirstLate seconds n) := late_iff hn.2.2 (hn.lt_add_day hpos)
  constructor
  · rintro ⟨n, hn, hleaves⟩ m hm i hi hle
    obtain rfl := hn.unique hm
    obtain ⟨-, hbefore, hafter⟩ := leaves_iff.mp hleaves
    rcases hle.lt_or_eq with hlt | rfl
    · exact (hearly hn hi hlt).mp (hbefore i hi hlt)
    · exact (hlate hn).mp hafter
  · intro hsame
    obtain ⟨n, hn⟩ := clock.exists_firstLate seconds
    refine ⟨n, hn, leaves_iff.mpr ⟨hn.1, fun i hi hlt => ?_, ?_⟩⟩
    · exact (hearly hn hi hlt).mpr (hsame n hn i hi hlt.le)
    · exact (hlate hn).mpr (hsame n hn n hn.1 le_rfl)

/-- A wait that is left on a later day than that of its deadline is left at least a day late: it goes
on until the time of the deadline comes round again. -/
theorem Leaves.overslept (hleaves : clock.Leaves seconds n)
    (hnext : clock.deadline seconds / msecsPerDay < clock.reading n / msecsPerDay) :
    clock.deadline seconds + msecsPerDay ≤ clock.reading n := by
  have htime := (leaves_iff.mp hleaves).2.2
  unfold msecsPerDay at *
  omega

end Clock

/-- Both waits are left at the first reading one second, or two seconds, after their start exactly when
the clock is read only on the day of that deadline. -/
theorem delays_in_time_iff (clock : Clock) :
    ((∃ n, clock.FirstLate 1 n ∧ OverviewFrame.delay clock n) ↔ clock.ReadOnDeadlineDay 1) ∧
      ((∃ n, clock.FirstLate 2 n ∧ MainWindow.delay clock n) ↔ clock.ReadOnDeadlineDay 2) :=
  ⟨clock.leavesInTime_iff (by decide) (by decide), clock.leavesInTime_iff (by decide) (by decide)⟩

/-- A clock that is read at equal distances. -/
def steadyClock (start gap : ℕ) (hpos : 0 < gap) (hle : gap ≤ msecsPerDay) : Clock where
  reading i := start + gap * i
  advances i := by rw [Nat.mul_succ]; omega
  gap_le i := by rw [Nat.mul_succ]; omega

/-- Read every 90 ms from 23:59:58.975 on, just before the deadline at 23:59:59.975 and next after
midnight. -/
def acrossMidnight : Clock := steadyClock 86398975 90 (by decide) (by decide)

/-- Read every 100 ms from 23:59:59.500 on. -/
def beforeMidnight : Clock := steadyClock 86399500 100 (by decide) (by decide)

/-- The first wait goes on past the reading after its deadline; the second one, whose deadline is after
midnight, is left after a tenth of a second. -/
theorem delay_missed :
    acrossMidnight.FirstLate 1 12 ∧ ¬ OverviewFrame.delay acrossMidnight 12 ∧
      ¬ (∃ n, acrossMidnight.FirstLate 1 n ∧ OverviewFrame.delay acrossMidnight n) ∧
      OverviewFrame.delay beforeMidnight 1 ∧ MainWindow.delay beforeMidnight 1 := by
  have hfirst : acrossMidnight.FirstLate 1 12 := by
    refine ⟨by decide, fun i _ hlt => ?_, by decide⟩
    show 86398975 + 90 * i < 86398975 + 90 * 0 + 1000 * 1
    omega
  have hmissed : ¬ OverviewFrame.delay acrossMidnight 12 := fun h =>
    absurd (Clock.leaves_iff.mp h).2.2 (by decide)
  refine ⟨hfirst, hmissed, ?_, ?_, ?_⟩
  · rintro ⟨n, hn, hleaves⟩
    exact hmissed (hfirst.unique hn ▸ hleaves)
  · exact Clock.leaves_iff.mpr ⟨le_rfl, fun i hi hlt => absurd hlt (by omega), by decide⟩
  · exact Clock.leaves_iff.mpr ⟨le_rfl, fun i hi hlt => absurd hlt (by omega), by decide⟩

end ConcealDesktop
