import Mathlib.Data.List.Nodup
import ConcealDesktop.Completions

/-! Success signals of deposits and the remote node fees that they cause. A deposit reports its
success when the submitting call returns; the completion callback reports it again when it finds
the id in the deposit slot, and OverviewFrame pays a fee for each report. -/
namespace ConcealDesktop.WalletAdapter
open EventDriven

/-- The walletCreateDepositCompletedSignals with error 0 of one emission. -/
def Emission.successes (e : Emission) : List Delivery :=
  e.deliveries.filter (·.error = 0)

/-- The successful deposit behind an emission: a call of deposit that returned. -/
def Emission.deposited (e : Emission) : List Delivery :=
  if e.origin = .returned ∧ e.operation = .deposit then [⟨.deposit, e.wallet, e.id, 0⟩] else []

def State.successes (s : State) : List Delivery := s.emitted.flatMap Emission.successes

def State.deposits (s : State) : List Delivery := s.emitted.flatMap Emission.deposited

/-- Every successful deposit is signalled once, and nothing else is signalled as one. -/
structure SignalledOnce (s : State) : Prop where
  once : ∀ d ∈ s.deposits, s.successes.count d = 1
  of_deposit : ∀ d ∈ s.successes, d ∈ s.deposits

/-- A callback without error does not reach the comparison with m_depositId and match there. -/
def LeavesDepositSlot (s : State) : Event → Prop
  | .completes id error => error = 0 → (s.operationOf id).isSome →
      id = s.slots.m_sentTransactionId ∨ id = s.slots.m_sentMessageId ∨ id ≠ s.slots.m_depositId
  | _ => True

instance (s : State) : (e : Event) → Decidable (LeavesDepositSlot s e)
  | .completes id error => inferInstanceAs (Decidable (error = 0 → (s.operationOf id).isSome →
      id = s.slots.m_sentTransactionId ∨ id = s.slots.m_sentMessageId ∨ id ≠ s.slots.m_depositId))
  | .submit _ | .submissionThrows .. | .submissionReturns _ | .receive | .deliver ..
  | .closeWallet | .openWallet _ => inferInstanceAs (Decidable True)

@[simp] theorem deposits_emit (s : State) (e : Emission) :
    (s.emit e).deposits = e.deposited ++ s.deposits := rfl

@[simp] theorem wallet_emit (s : State) (e : Emission) : (s.emit e).wallet = s.wallet := rfl

@[simp] theorem nextId_emit (s : State) (e : Emission) : (s.emit e).nextId = s.nextId := rfl

@[simp] theorem call_emit (s : State) (e : Emission) : (s.emit e).call = s.call := rfl

/-! ### Emissions that signal exactly their own deposit -/

/-- The emission signals success exactly when it is the return of a deposit. -/
def Emission.Exact (e : Emission) : Prop := e.successes = e.deposited

theorem exact_returned (s : Slots) (op : Operation) (wallet : ℕ) (id : TransactionId)
    (found : Bool) : (Emission.mk .returned op wallet id 0 (storeId s op id found).2).Exact := by
  cases op <;> rfl

theorem exact_threw (op : Operation) (wallet : ℕ) (id : TransactionId) {error : ℤ}
    (h : error ≠ 0) :
    (Emission.mk .threw op wallet id error (failureSignals op error)).Exact := by
  cases op <;> simp [Emission.Exact, Emission.successes, Emission.deliveries, Emission.deposited,
    failureSignals, h]

/-- A callback signals a success only from the deposit slot, and only without an error. -/
theorem exact_completed_iff (s : Slots) (op : Operation) (wallet : ℕ) (id : TransactionId)
    (error : ℤ) :
    (Emission.mk .completed op wallet id error (sendTransactionCompleted s id error).2).Exact ↔
      (error = 0 → id = s.m_sentTransactionId ∨ id = s.m_sentMessageId ∨ id ≠ s.m_depositId) := by
  unfold sendTransactionCompleted
  split_ifs <;> simp_all [Emission.Exact, Emission.successes, Emission.deliveries,
    Emission.deposited]

theorem handle_exact_iff (s : State) (e : Event) (he : enabled s e) :
    (∀ x ∈ (handle s e).emitted, x.Exact) ↔
      LeavesDepositSlot s e ∧ ∀ x ∈ s.emitted, x.Exact := by
  have hstep := handle_emitted_iff (Q := Emission.Exact) s e
    (fun op id found => exact_returned _ op _ id found) (fun op error h => ?_)
  · apply hstep.trans
    apply and_congr_left
    intro _
    cases e with
    | completes id error =>
      obtain ⟨op, hop⟩ := Option.isSome_iff_exists.mp he
      simp [CompletionEmits, LeavesDepositSlot, exact_completed_iff, hop]
    | _ => simp [CompletionEmits, LeavesDepositSlot]
  · rcases h with rfl | herror
    · exact exact_threw op _ _ he.2
    · exact exact_threw op _ _ herror

/-- The emissions are exact in the runs whose callbacks all leave the deposit slot. -/
theorem exact_iff_leaves {h : List Event} (hadm : system.Admissible h) :
    (∀ x ∈ (system.after h).emitted, x.Exact) ↔ system.Always LeavesDepositSlot h := by
  induction h with
  | nil => simp [system]
  | cons e h ih =>
    rw [EventSystem.always_cons, ← ih hadm.2]
    exact handle_exact_iff _ e hadm.1

/-- Returned deposits are signalled in any case, whatever the callbacks do. -/
theorem deposited_sublist {h : List Event} (hadm : system.Admissible h) :
    ∀ x ∈ (system.after h).emitted, x.deposited.Sublist x.successes := by
  induction h with
  | nil => simp [system]
  | cons e h ih =>
    have hexact {x : Emission} (hx : x.Exact) : x.deposited.Sublist x.successes :=
      hx ▸ List.Sublist.refl _
    refine (handle_emitted_iff (Q := fun x => x.deposited.Sublist x.successes) _ e
      (fun op id found => hexact (exact_returned _ op _ id found)) (fun op error herr => ?_)).mpr
      ⟨?_, ih hadm.2⟩
    · rcases herr with rfl | herr
      · exact hexact (exact_threw op _ _ hadm.1.2)
      · exact hexact (exact_threw op _ _ herr)
    · cases e <;> simp [CompletionEmits, Emission.deposited]

/-! ### Every deposit has an id of its own -/

structure FreshIds (s : State) : Prop where
  past : ∀ d ∈ s.deposits, d.wallet < s.wallet ∨ (d.wallet = s.wallet ∧ d.id < s.nextId)
  call : ∀ c ∈ s.call, c.2 < s.nextId ∧ ∀ d ∈ s.deposits, d.wallet = s.wallet → d.id ≠ c.2
  nodup : s.deposits.Nodup

/-- The other fields do not matter. -/
theorem FreshIds.frame {s s' : State} (hs : FreshIds s) (hemitted : s'.emitted = s.emitted)
    (hwallet : s'.wallet = s.wallet) (hnext : s'.nextId = s.nextId)
    (hcall : ∀ c ∈ s'.call, c ∈ s.call) : FreshIds s' := by
  have hdeposits : s'.deposits = s.deposits := by rw [State.deposits, hemitted]; rfl
  refine ⟨?_, fun c hc => ?_, ?_⟩
  · rw [hdeposits, hwallet, hnext]
    exact hs.past
  · rw [hdeposits, hwallet, hnext]
    exact hs.call c (hcall c hc)
  · rw [hdeposits]
    exact hs.nodup

theorem FreshIds.emit {s : State} (hs : FreshIds s) {e : Emission} (he : e.deposited = []) :
    FreshIds (s.emit e) where
  past := by simpa [he] using hs.past
  call := by simpa [he] using hs.call
  nodup := by simpa [he] using hs.nodup

theorem FreshIds.create {s : State} (hs : FreshIds s) (op : Operation) :
    FreshIds (s.create op) where
  past d hd := (hs.past d hd).imp_right fun h => ⟨h.1, Nat.lt_succ_of_lt h.2⟩
  call := by
    rintro c ⟨⟩
    refine ⟨Nat.lt_succ_self _, fun d hd hw => ?_⟩
    rcases hs.past d hd with hpast | hpast
    · exact absurd hw (Nat.ne_of_lt hpast)
    · exact Nat.ne_of_lt hpast.2
  nodup := hs.nodup

theorem FreshIds.returns {s : State} (hs : FreshIds s) {op : Operation} {id : TransactionId}
    (hc : s.call = some (op, id)) (found : Bool) : FreshIds (s.returns op id found) := by
  obtain ⟨hlt, hnew⟩ := hs.call (op, id) hc
  have hdeposits : (s.returns op id found).deposits =
      (if op = .deposit then [⟨.deposit, s.wallet, id, 0⟩] else []) ++ s.deposits := by
    simp only [State.returns, deposits_emit, Emission.deposited, true_and]
    rfl
  refine ⟨fun d hd => ?_, by simp [State.returns, State.emit], ?_⟩
  · rw [hdeposits] at hd
    rcases List.mem_append.mp hd with hd | hd
    · split_ifs at hd
      · obtain rfl := List.mem_singleton.mp hd
        exact .inr ⟨rfl, hlt⟩
      · simp at hd
    · exact hs.past d hd
  · rw [hdeposits]
    split_ifs
    · exact List.nodup_cons.mpr ⟨fun h => hnew _ h rfl rfl, hs.nodup⟩
    · exact hs.nodup

theorem FreshIds.step (s : State) (e : Event) (hs : FreshIds s) (he : enabled s e) :
    FreshIds (handle s e) := by
  cases e with
  | submit op => exact hs.create op
  | submissionThrows op error => exact hs.emit rfl
  | submissionReturns found =>
    obtain ⟨⟨op, id⟩, hc⟩ := Option.isSome_iff_exists.mp he
    simpa only [handle, hc] using hs.returns hc found
  | completes id error =>
    obtain ⟨op, hop⟩ := Option.isSome_iff_exists.mp he
    simp only [handle, hop, State.completes]
    apply FreshIds.emit
    · exact hs.frame rfl rfl rfl fun _ hc => hc
    · rfl
  | receive =>
    refine ⟨fun d hd => ?_, fun c hc => ?_, hs.nodup⟩
    · exact (hs.past d hd).imp_right fun h => ⟨h.1, Nat.lt_succ_of_lt h.2⟩
    · exact ⟨Nat.lt_succ_of_lt (hs.call c hc).1, (hs.call c hc).2⟩
  | deliver remoteFee accepted =>
    cases hq : s.queue with
    | nil => simpa only [handle, hq] using hs
    | cons d queue =>
      simp only [handle, hq, createDepositCompleted]
      have hframe (payments : List Delivery) :
          FreshIds { s with queue := queue, payments := payments } :=
        hs.frame rfl rfl rfl fun _ hc => hc
      split_ifs
      · exact hframe _
      · exact (hframe _).create _
      · exact (hframe _).emit rfl
      · exact hframe _
  | closeWallet => exact ⟨hs.past, hs.call, hs.nodup⟩
  | openWallet count =>
    refine ⟨fun d hd => .inl ?_, fun c hc => ?_, hs.nodup⟩
    · have := hs.past d hd
      simp only [handle]
      omega
    · simp [handle, he.2] at hc

theorem freshIds {h : List Event} (hadm : system.Admissible h) : FreshIds (system.after h) :=
  EventSystem.Always.invariant (I := FreshIds)
    ⟨by simp [system, State.deposits], by simp [system], by simp [system, State.deposits]⟩
    FreshIds.step hadm

/-! ### Payments are backed by signals -/

/-- Every signal was posted once; it waits in the queue or was delivered. A payment uses up the
delivery of a success. -/
structure Backed (s : State) : Prop where
  count : ∀ d, s.payments.count d + s.queue.count d ≤
    (s.emitted.flatMap Emission.deliveries).count d
  error : ∀ d ∈ s.payments, d.error = 0

theorem Backed.frame {s s' : State} (hs : Backed s) (hemitted : s'.emitted = s.emitted)
    (hqueue : s'.queue = s.queue) (hpayments : s'.payments = s.payments) : Backed s' :=
  ⟨by rw [hemitted, hqueue, hpayments]; exact hs.count, by rw [hpayments]; exact hs.error⟩

theorem Backed.emit {s : State} (hs : Backed s) (e : Emission) : Backed (s.emit e) where
  count d := by
    have := hs.count d
    simp only [State.emit, List.flatMap_cons, List.count_append]
    omega
  error := hs.error

theorem Backed.step (s : State) (e : Event) (hs : Backed s) (_ : enabled s e) :
    Backed (handle s e) := by
  cases e with
  | submit op => exact ⟨hs.count, hs.error⟩
  | submissionThrows op error => exact hs.emit _
  | submissionReturns found =>
    cases hc : s.call with
    | none => simpa only [handle, hc] using hs
    | some c =>
      simp only [handle, hc, State.returns]
      apply Backed.emit
      exact hs.frame rfl rfl rfl
  | completes id error =>
    cases ho : s.operationOf id with
    | none => simpa only [handle, ho] using hs
    | some op =>
      simp only [handle, ho, State.completes]
      apply Backed.emit
      exact hs.frame rfl rfl rfl
  | receive => exact ⟨hs.count, hs.error⟩
  | deliver remoteFee accepted =>
    cases hq : s.queue with
    | nil => simpa only [handle, hq] using hs
    | cons d queue =>
      have hskip : Backed { s with queue := queue } := by
        refine ⟨fun x => ?_, hs.error⟩
        have := hs.count x
        rw [hq, List.count_cons] at this
        dsimp only
        omega
      have hpay (hd : d.error = 0) :
          Backed { s with queue := queue, payments := d :: s.payments } := by
        refine ⟨fun x => ?_, List.forall_mem_cons.mpr ⟨hd, hs.error⟩⟩
        have := hs.count x
        rw [hq, List.count_cons] at this
        simp only [List.count_cons]
        omega
      simp only [handle, hq, createDepositCompleted]
      split_ifs with herror
      · exact hskip
      · exact (hpay (not_not.mp herror)).frame rfl rfl rfl
      · exact (hpay (not_not.mp herror)).emit _
      · exact hskip
  | closeWallet => exact ⟨hs.count, hs.error⟩
  | openWallet count => exact ⟨hs.count, hs.error⟩

theorem backed {h : List Event} (hadm : system.Admissible h) : Backed (system.after h) :=
  EventSystem.Always.invariant (I := Backed) ⟨by simp [system], by simp [system]⟩
    Backed.step hadm

theorem Backed.payments_count {s : State} (hs : Backed s) {d : Delivery} (hd : d ∈ s.payments) :
    s.payments.count d ≤ s.successes.count d := by
  have herror := hs.error d hd
  have hcount : s.successes.count d = (s.emitted.flatMap Emission.deliveries).count d := by
    simp only [State.successes, List.count_flatMap]
    congr 2
    funext x
    simp [Emission.successes, List.count_filter, herror]
  have := hs.count d
  omega

/-! ### One signal and at most one payment for each deposit -/

/-- Sublists whose total length is not exceeded are the whole lists. -/
theorem eq_of_sublist_of_length_le {α β : Type*} {f g : α → List β} {l : List α}
    (hsub : ∀ x ∈ l, (f x).Sublist (g x)) (hlen : (l.flatMap g).length ≤ (l.flatMap f).length) :
    ∀ x ∈ l, g x = f x := by
  induction l with
  | nil => simp
  | cons x l ih =>
    obtain ⟨hx, hl⟩ := List.forall_mem_cons.mp hsub
    have hle : (l.flatMap f).length ≤ (l.flatMap g).length := by
      simp only [List.length_flatMap]
      exact List.sum_le_sum fun y hy => (hl y hy).length_le
    have hxle := hx.length_le
    simp only [List.flatMap_cons, List.length_append] at hlen
    exact List.forall_mem_cons.mpr
      ⟨(hx.eq_of_length_le (by omega)).symm, ih hl (by omega)⟩

theorem signalledOnce_iff_exact {s : State} (hfresh : FreshIds s)
    (hsub : ∀ x ∈ s.emitted, x.deposited.Sublist x.successes) :
    SignalledOnce s ↔ ∀ x ∈ s.emitted, x.Exact := by
  constructor
  · intro hs
    have hnodup : s.successes.Nodup := List.nodup_iff_count_le_one.mpr fun d => by
      by_cases hd : d ∈ s.successes
      · exact (hs.once d (hs.of_deposit d hd)).le
      · exact (List.count_eq_zero_of_not_mem hd).le.trans zero_le_one
    exact eq_of_sublist_of_length_le hsub (List.subperm_of_subset hnodup hs.of_deposit).length_le
  · intro hexact
    have heq : s.successes = s.deposits := List.flatMap_congr hexact
    refine ⟨fun d hd => ?_, fun d hd => heq ▸ hd⟩
    rw [heq]
    exact List.count_eq_one_of_mem hfresh.nodup hd

theorem SignalledOnce.payments {s : State} (hs : SignalledOnce s) (hb : Backed s) :
    s.payments.Nodup ∧ ∀ d ∈ s.payments, d ∈ s.deposits := by
  have hmem : ∀ d ∈ s.payments, d ∈ s.deposits := fun d hd => by
    have hpos := (List.count_pos_iff.mpr hd).trans_le (hb.payments_count hd)
    exact hs.of_deposit d (List.count_pos_iff.mp hpos)
  refine ⟨List.nodup_iff_count_le_one.mpr fun d => ?_, hmem⟩
  by_cases hd : d ∈ s.payments
  · exact (hb.payments_count hd).trans (hs.once d (hmem d hd)).le
  · exact (List.count_eq_zero_of_not_mem hd).le.trans zero_le_one

/-- In every run, each successful deposit is signalled once exactly when no callback without error
finds its id in the deposit slot, and then it causes at most one fee payment. -/
theorem deposits_signalled_once_iff {h : List Event} (hadm : system.Admissible h) :
    (SignalledOnce (system.after h) ↔ system.Always LeavesDepositSlot h) ∧
      (system.Always LeavesDepositSlot h → (system.after h).payments.Nodup ∧
        ∀ d ∈ (system.after h).payments, d ∈ (system.after h).deposits) := by
  have hiff := (signalledOnce_iff_exact (freshIds hadm) (deposited_sublist hadm)).trans
    (exact_iff_leaves hadm)
  exact ⟨hiff, fun hleaves => (hiff.mpr hleaves).payments (backed hadm)⟩

/-- A deposit whose callback fails: the run has one signal and one payment. -/
theorem deposits_signalled_once_run :
    let h : List Event := [.deliver true true, .completes 0 5, .submissionReturns true,
      .submit .deposit, .openWallet 0]
    system.Admissible h ∧ SignalledOnce (system.after h) ∧ (system.after h).payments.length = 1 := by
  intro h
  have hadm : system.Admissible h := by decide
  exact ⟨hadm, (deposits_signalled_once_iff hadm).1.mpr (by decide), by decide⟩

/-- A deposit whose callback succeeds is signalled twice and pays the fee twice. -/
theorem deposit_paid_twice :
    let h : List Event := [.deliver true true, .submissionReturns true, .deliver true true,
      .completes 0 0, .submissionReturns true, .submit .deposit, .openWallet 0]
    system.Admissible h ∧ (system.after h).deposits = [⟨.deposit, 1, 0, 0⟩] ∧
      (system.after h).successes.count ⟨.deposit, 1, 0, 0⟩ = 2 ∧
      (system.after h).payments = [⟨.deposit, 1, 0, 0⟩, ⟨.deposit, 1, 0, 0⟩] := by
  decide

end ConcealDesktop.WalletAdapter
