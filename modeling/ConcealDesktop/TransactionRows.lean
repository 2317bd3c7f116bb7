import ConcealDesktop.Library.CatchUp
import ConcealDesktop.Models

/-! The rows of TransactionsModel along a run. The table lists the first transactions of the wallet
in order, however reload, created and close events are delivered, and catching up lists the
remaining ones as a reload does. -/
namespace ConcealDesktop.TransactionsModel
open EventDriven WalletAdapter

/-! ### One transaction -/

/-- The row of a transaction that the wallet has. -/
def rowOf (wallet : Option Wallet) (id : ℕ) : TransactionId × TransferId :=
  (id, if getTransferCount wallet id = 0 then WALLET_INVALID_TRANSFER_ID else 0)

/-- The number of rows that the entry of a transaction gives. -/
def countOf (wallet : Option Wallet) (id : ℕ) : ℕ :=
  if getTransferCount wallet id = 0 then 1 else getTransferCount wallet id % 2 ^ 32

theorem appendTransaction_of_lt {wallet : Option Wallet} {id : ℕ}
    (h : id < getTransactionCount wallet) (m : TransactionsModel) (inserted : ℕ) :
    appendTransaction wallet (m, inserted) id =
      (⟨m.m_transfers ++ [rowOf wallet id],
        m.m_transactionRow.insert id (m.rowCount % 2 ^ 32, countOf wallet id)⟩, inserted + 1) := by
  obtain ⟨t, ht⟩ := Option.isSome_iff_exists.mp ((getTransaction_isSome wallet id).mpr h)
  by_cases hc : getTransferCount wallet id = 0 <;> simp [appendTransaction, ht, rowOf, countOf, hc]

theorem appendTransaction_of_le {wallet : Option Wallet} {id : ℕ}
    (h : getTransactionCount wallet ≤ id) (acc : TransactionsModel × ℕ) :
    appendTransaction wallet acc id = acc := by
  simp [appendTransaction, (getTransaction_eq_none wallet id).mpr h]

/-! ### The catch-up loop -/

/-- The first `n` transactions are listed, each with one row and an entry that starts there. -/
structure Listed (n : ℕ) (m : TransactionsModel) : Prop where
  lt : n < 2 ^ 31
  ids : m.m_transfers.map Prod.fst = List.range n
  keys : m.m_transactionRow.keys = (List.range n).reverse
  first : ∀ k : ℕ, k < n → ∃ count, m.m_transactionRow.lookup k = some (k, count)

/-- `m'` has the rows of `m` and then those of the wallet from `start` up to `n`. -/
structure Appended (wallet : Option Wallet) (m : TransactionsModel) (start n : ℕ)
    (m' : TransactionsModel) : Prop where
  le : start ≤ n
  transfers : m'.m_transfers = m.m_transfers ++ (List.range' start (n - start)).map (rowOf wallet)
  entries : ∀ k : ℕ, m'.m_transactionRow.lookup k =
    if start ≤ k ∧ k < n then some (k, countOf wallet k) else m.m_transactionRow.lookup k
  listed : Listed n m'

theorem listed_empty : Listed 0 empty :=
  ⟨by decide, rfl, rfl, fun _ h => absurd h (Nat.not_lt_zero _)⟩

namespace Listed

variable {n : ℕ} {m : TransactionsModel}

theorem rowCount_eq (hm : Listed n m) : m.rowCount = n := by
  have := congrArg List.length hm.ids
  rwa [List.length_map, List.length_range] at this

theorem size_eq (hm : Listed n m) : m.m_transactionRow.size = n := by
  rw [QHash.size, hm.keys, List.length_reverse, List.length_range]

theorem contains_iff (hm : Listed n m) (k : ℕ) :
    m.m_transactionRow.contains k = true ↔ k < n := by
  rw [QHash.contains_iff, hm.keys, List.mem_reverse, List.mem_range]

theorem lookup_eq_none (hm : Listed n m) {k : ℕ} (h : n ≤ k) :
    m.m_transactionRow.lookup k = none := by
  rw [AList.lookup_eq_none, AList.mem_keys, ← QHash.contains_iff, hm.contains_iff]
  omega

/-- Row `r` belongs to transaction `r`. -/
theorem row_iff (hm : Listed n m) (r id : ℕ) :
    (∃ transfer, m.m_transfers[r]? = some (id, transfer)) ↔ r = id ∧ id < n := by
  have hget : (m.m_transfers[r]?).map Prod.fst = if r < n then some r else none := by
    rw [← List.getElem?_map, hm.ids]
    split_ifs with h
    · exact List.getElem?_range h
    · exact List.getElem?_eq_none (by simpa using h)
  constructor
  · rintro ⟨transfer, hr⟩
    rw [hr] at hget
    split_ifs at hget with h
    · have : id = r := Option.some.inj hget
      omega
    · exact absurd hget (by simp)
  · rintro ⟨rfl, h⟩
    rw [if_pos h, Option.map_eq_some_iff] at hget
    obtain ⟨⟨id, transfer⟩, hr, hid⟩ := hget
    exact ⟨transfer, by rw [hr, ← hid]⟩

theorem appended (hm : Listed n m) (wallet : Option Wallet) : Appended wallet m n n m where
  le := le_refl n
  transfers := by simp
  entries k := by rw [if_neg (by omega)]
  listed := hm

end Listed

/-- One turn of the loop. -/
theorem Appended.step {wallet : Option Wallet} {m m' : TransactionsModel} {start n inserted : ℕ}
    (h : Appended wallet m start n m') (hn : n < getTransactionCount wallet) :
    Appended wallet m start (n + 1) (appendTransaction wallet (m', inserted) n).1 := by
  rw [appendTransaction_of_lt hn, h.listed.rowCount_eq, Nat.mod_eq_of_lt (by have := h.listed.lt; omega)]
  have hlookup (k : ℕ) :
      (m'.m_transactionRow.insert n (n, countOf wallet n)).lookup k =
        if k = n then some (n, countOf wallet n) else m'.m_transactionRow.lookup k :=
    QHash.lookup_insert _ _ _ _
  have hcount := getTransactionCount_lt wallet
  refine ⟨Nat.le_succ_of_le h.le, ?_, fun k => ?_, by omega, ?_, ?_, fun k hk => ?_⟩
  · have hle := h.le
    have hsub : n + 1 - start = n - start + 1 := by omega
    have hlast : start + 1 * (n - start) = n := by omega
    simp only [h.transfers, hsub, List.range'_concat, hlast, List.map_append, List.map_cons,
      List.map_nil, List.append_assoc]
  · have hle := h.le
    rw [hlookup, h.entries]
    by_cases hk : k = n
    · rw [if_pos hk, if_pos (by omega), hk]
    · rw [if_neg hk]
      exact if_congr (by omega) rfl rfl
  · simp [h.listed.ids, List.range_succ, rowOf]
  · have hnew : n ∉ m'.m_transactionRow.keys := by
      rw [h.listed.keys, List.mem_reverse, List.mem_range]
      exact lt_irrefl n
    simp only [QHash.keys_insert_of_notMem hnew, h.listed.keys, List.range_succ,
      List.reverse_append, List.reverse_cons, List.reverse_nil, List.nil_append, List.cons_append]
  · simp only [hlookup]
    split_ifs with heq
    · exact ⟨_, by rw [heq]⟩
    · exact h.listed.first k (by omega)

/-- The loop from the first missing id lists everything below its end that the wallet has. -/
theorem foldl_appended {n : ℕ} {m : TransactionsModel} (hm : Listed n m) (wallet : Option Wallet)
    (k : ℕ) :
    Appended wallet m n (max n (min (n + k) (getTransactionCount wallet)))
      ((List.range' n k).foldl (appendTransaction wallet) (m, 0)).1 :=
  CatchUp.foldl_filled (fun i acc => Appended wallet m n i acc.1)
    (fun acc _ h => appendTransaction_of_le h acc) (fun _ _ hi h => h.step hi)
    (hm.appended wallet) k

theorem reload_appended (wallet : Option Wallet) (m : TransactionsModel) :
    Appended wallet empty 0 (getTransactionCount wallet) (m.reloadWalletTransactions wallet).1 := by
  have h := foldl_appended listed_empty wallet (getTransactionCount wallet)
  have hmax : max 0 (min (0 + getTransactionCount wallet) (getTransactionCount wallet)) =
      getTransactionCount wallet := by omega
  rwa [hmax] at h

theorem transactionCreated_appended {n : ℕ} {m : TransactionsModel} (hm : Listed n m)
    (wallet : Option Wallet) (id : ℕ) :
    Appended wallet m n (max n (min (id + 1) (getTransactionCount wallet)))
      (m.transactionCreated wallet id).1 := by
  unfold transactionCreated
  split_ifs with hc
  · have hlt := (hm.contains_iff id).mp hc
    have hmax : max n (min (id + 1) (getTransactionCount wallet)) = n := by omega
    rw [hmax]
    exact hm.appended wallet
  · have hle : n ≤ id := not_lt.mp fun h => hc ((hm.contains_iff id).mpr h)
    have h := foldl_appended hm wallet (id + 1 - n)
    have hadd : n + (id + 1 - n) = id + 1 := by omega
    rw [hadd] at h
    simpa only [hm.size_eq] using h

theorem Listed.handle {n : ℕ} {m : TransactionsModel} (hm : Listed n m) (wallet : Option Wallet)
    (e : Event) : ∃ n', Listed n' (m.handle wallet e).1 := by
  cases e with
  | reloadWalletTransactions => exact ⟨_, (reload_appended wallet m).listed⟩
  | transactionCreated id => exact ⟨_, (transactionCreated_appended hm wallet id).listed⟩
  | transactionUpdated id => exact ⟨n, hm⟩
  | lastKnownHeightUpdated => exact ⟨n, hm⟩
  | walletCloseCompleted => exact ⟨0, listed_empty⟩

/-! ### Comparison with a full reload -/

theorem reload_transfers (wallet : Option Wallet) (m : TransactionsModel) :
    (m.reloadWalletTransactions wallet).1.m_transfers =
      (List.range' 0 (getTransactionCount wallet)).map (rowOf wallet) := by
  simpa only [empty, List.nil_append, Nat.sub_zero] using (reload_appended wallet m).transfers

theorem reload_lookup (wallet : Option Wallet) (m : TransactionsModel) (k : ℕ) :
    (m.reloadWalletTransactions wallet).1.m_transactionRow.lookup k =
      if k < getTransactionCount wallet then some (k, countOf wallet k) else none := by
  rw [(reload_appended wallet m).entries k]
  exact if_congr (by omega) rfl rfl

/-- A created signal for a transaction of the wallet lists everything up to it, and what it lists
is what a reload would list there. -/
structure CatchesUp (wallet : Option Wallet) (m : TransactionsModel) (id : ℕ) : Prop where
  present : id < getTransactionCount wallet → ∀ k : ℕ, k ≤ id →
    k ∈ (m.transactionCreated wallet id).1.m_transactionRow
  transfers : (m.transactionCreated wallet id).1.m_transfers = m.m_transfers ++
    ((m.reloadWalletTransactions wallet).1.m_transfers.take (id + 1)).drop m.rowCount
  entries : ∀ k : ℕ, m.rowCount ≤ k → k ≤ id →
    (m.transactionCreated wallet id).1.m_transactionRow.lookup k =
      (m.reloadWalletTransactions wallet).1.m_transactionRow.lookup k

theorem Listed.mem_iff {n : ℕ} {m : TransactionsModel} (hm : Listed n m) (k : ℕ) :
    k ∈ m.m_transactionRow ↔ k < n := by
  rw [AList.mem_keys, ← QHash.contains_iff, hm.contains_iff]

theorem Listed.catchesUp {n : ℕ} {m : TransactionsModel} (hm : Listed n m)
    (wallet : Option Wallet) (id : ℕ) : CatchesUp wallet m id := by
  have happ := transactionCreated_appended hm wallet id
  refine ⟨fun hid k hk => ?_, ?_, fun k hnk hk => ?_⟩
  · rw [happ.listed.mem_iff]
    omega
  · have hsub : min (id + 1) (getTransactionCount wallet) - n =
        max n (min (id + 1) (getTransactionCount wallet)) - n := by omega
    rw [happ.transfers, reload_transfers, hm.rowCount_eq, ← List.map_take,
      ← List.map_drop, CatchUp.take_range', List.drop_range', hsub]
    simp
  · rw [hm.rowCount_eq] at hnk
    rw [happ.entries, reload_lookup, hm.lookup_eq_none hnk]
    exact if_congr (by omega) rfl rfl

/-- The rows and entries are those of the first `n` transactions of a full reload. -/
structure PrefixOfReload (wallet : Option Wallet) (n : ℕ) (m : TransactionsModel) : Prop where
  le : n ≤ getTransactionCount wallet
  transfers : m.m_transfers = (m.reloadWalletTransactions wallet).1.m_transfers.take n
  entries : ∀ k : ℕ, k < n → m.m_transactionRow.lookup k =
    (m.reloadWalletTransactions wallet).1.m_transactionRow.lookup k

/-- The same prefix without the reload. -/
theorem prefixOfReload_iff {wallet : Option Wallet} {n : ℕ} {m : TransactionsModel}
    (hn : n ≤ getTransactionCount wallet) :
    PrefixOfReload wallet n m ↔ m.m_transfers = (List.range' 0 n).map (rowOf wallet) ∧
      ∀ k : ℕ, k < n → m.m_transactionRow.lookup k = some (k, countOf wallet k) := by
  have htransfers : (m.reloadWalletTransactions wallet).1.m_transfers.take n =
      (List.range' 0 n).map (rowOf wallet) := by
    rw [reload_transfers, ← List.map_take, CatchUp.take_range', min_eq_left hn]
  have hentries (k : ℕ) (hk : k < n) :
      (m.reloadWalletTransactions wallet).1.m_transactionRow.lookup k =
        some (k, countOf wallet k) := by
    rw [reload_lookup, if_pos (hk.trans_le hn)]
  constructor
  · intro h
    exact ⟨h.transfers.trans htransfers, fun k hk => (h.entries k hk).trans (hentries k hk)⟩
  · rintro ⟨hm, he⟩
    exact ⟨hn, hm.trans htransfers.symm, fun k hk => (he k hk).trans (hentries k hk).symm⟩

theorem PrefixOfReload.transactionCreated {wallet : Option Wallet} {n : ℕ} {m : TransactionsModel}
    (h : PrefixOfReload wallet n m) (hm : Listed n m) (id : ℕ) :
    ∃ n', PrefixOfReload wallet n' (m.transactionCreated wallet id).1 ∧
      Listed n' (m.transactionCreated wallet id).1 := by
  obtain ⟨htransfers, hentries⟩ := (prefixOfReload_iff h.le).mp h
  have happ := transactionCreated_appended hm wallet id
  have hle := h.le
  refine ⟨_, (prefixOfReload_iff (by omega)).mpr ⟨?_, fun k hk => ?_⟩, happ.listed⟩
  · rw [happ.transfers, htransfers, ← List.map_append, CatchUp.range'_append_of_le happ.le]
  · rw [happ.entries k]
    split_ifs with hnew
    · rfl
    · exact hentries k (by omega)

/-- The wallet still has the listed transactions, each with as many transfers as before. -/
def KeepsTransfers (n : ℕ) (old new : Option Wallet) : Prop :=
  n ≤ getTransactionCount new ∧ ∀ k : ℕ, k < n → getTransferCount new k = getTransferCount old k

theorem PrefixOfReload.wallet {old new : Option Wallet} {n : ℕ} {m : TransactionsModel}
    (h : PrefixOfReload old n m) (hkeep : KeepsTransfers n old new) : PrefixOfReload new n m := by
  obtain ⟨htransfers, hentries⟩ := (prefixOfReload_iff h.le).mp h
  refine (prefixOfReload_iff hkeep.1).mpr ⟨?_, fun k hk => ?_⟩
  · rw [htransfers]
    apply List.map_congr_left
    intro k hk
    have hlt := (List.mem_range'_1.mp hk).2
    rw [rowOf, rowOf, hkeep.2 k (by omega)]
  · rw [hentries k hk, countOf, countOf, hkeep.2 k hk]

end ConcealDesktop.TransactionsModel

/-! ### Runs -/

namespace ConcealDesktop.Models
open EventDriven TransactionsModel

theorem exists_listed (env : Environment) (h : List Event) :
    ∃ n, Listed n ((system env).after h).transactions := by
  induction h with
  | nil => exact ⟨0, listed_empty⟩
  | cons e h ih =>
    obtain ⟨n, hn⟩ := ih
    cases e with
    | wallet wallet => exact ⟨n, hn⟩
    | transactions e => exact hn.handle _ e
    | messages e => exact ⟨n, hn⟩
    | deposits e => exact ⟨n, hn⟩

/-- Since the last reload or close the wallet has kept the transfers of what is listed. -/
def TransfersKept (env : Environment) : List Event → Prop
  | [] => True
  | .transactions .reloadWalletTransactions :: _ => True
  | .transactions .walletCloseCompleted :: _ => True
  | .wallet wallet :: h => TransfersKept env h ∧ KeepsTransfers
      ((system env).after h).transactions.rowCount ((system env).after h).wallet wallet
  | _ :: h => TransfersKept env h

theorem prefixOfReload_of_kept (env : Environment) (h : List Event) (hkept : TransfersKept env h) :
    ∃ n, PrefixOfReload ((system env).after h).wallet n ((system env).after h).transactions ∧
      Listed n ((system env).after h).transactions := by
  have hempty (wallet : Option Wallet) : PrefixOfReload wallet 0 empty :=
    (prefixOfReload_iff (Nat.zero_le _)).mpr ⟨rfl, fun _ hk => absurd hk (Nat.not_lt_zero _)⟩
  induction h with
  | nil => exact ⟨0, hempty _, listed_empty⟩
  | cons e h ih =>
    cases e with
    | wallet wallet =>
      obtain ⟨n, hprefix, hlisted⟩ := ih hkept.1
      refine ⟨n, hprefix.wallet ?_, hlisted⟩
      have hrows := hkept.2
      rwa [hlisted.rowCount_eq] at hrows
    | transactions e =>
      cases e with
      | reloadWalletTransactions =>
        have happ := reload_appended ((system env).after h).wallet ((system env).after h).transactions
        refine ⟨_, (prefixOfReload_iff le_rfl).mpr ⟨?_, fun k hk => ?_⟩, happ.listed⟩
        · exact reload_transfers _ ((system env).after h).transactions
        · exact (reload_lookup _ ((system env).after h).transactions k).trans (if_pos hk)
      | transactionCreated id =>
        obtain ⟨n, hprefix, hlisted⟩ := ih hkept
        exact hprefix.transactionCreated hlisted id
      | transactionUpdated id => exact ih hkept
      | lastKnownHeightUpdated => exact ih hkept
      | walletCloseCompleted => exact ⟨0, hempty _, listed_empty⟩
    | messages e => exact ih hkept
    | deposits e => exact ih hkept

/-- In every run the table lists the first transactions, each once and in order; a created signal
makes it catch up with what a reload would list, and while the wallet keeps its transfers the
whole table is the beginning of a reloaded one. -/
theorem transactions_listed_in_order (env : Environment) (h : List Event) :
    let s := (system env).after h
    ∃ n, s.transactions.m_transfers.map Prod.fst = List.range n ∧
      (∀ k : ℕ, k ∈ s.transactions.m_transactionRow ↔ k < n) ∧
      (∀ id : ℕ, CatchesUp s.wallet s.transactions id) ∧
      (TransfersKept env h → PrefixOfReload s.wallet n s.transactions) := by
  intro s
  obtain ⟨n, hlisted⟩ := exists_listed env h
  refine ⟨n, hlisted.ids, hlisted.mem_iff, hlisted.catchesUp s.wallet, ?_⟩
  intro hkept
  obtain ⟨n', hprefix, hlisted'⟩ := prefixOfReload_of_kept env h hkept
  have heq : n' = n := hlisted'.rowCount_eq.symm.trans hlisted.rowCount_eq
  exact heq ▸ hprefix

end ConcealDesktop.Models
