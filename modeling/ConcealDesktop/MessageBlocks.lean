import ConcealDesktop.Library.Blocks
import ConcealDesktop.Library.CatchUp
import ConcealDesktop.Models

/-! The rows of MessagesModel along a run. The list holds the messages of the first transactions,
one block after another; the chunks of a reload and the created signals both extend it by whole
blocks, so their order does not matter. -/
namespace ConcealDesktop.MessagesModel
open EventDriven EventDriven.Blocks WalletAdapter

def messagesOf (wallet : Option Wallet) (id : ℕ) : List StdString :=
  (getTransaction wallet id).elim [] (·.messages)

/-- The entry of a block, stored in 32 bits. -/
def entryOf (blocks : List (List StdString)) (k : ℕ) (block : List StdString) : ℕ × ℕ :=
  if block = [] then noRows else (offset blocks k % 2 ^ 32, block.length % 2 ^ 32)

/-- The model lists the blocks, and its hash has an entry for each. -/
structure Holds (blocks : List (List StdString)) (m : MessagesModel) : Prop where
  messages : m.m_messages = rows blocks
  keys : m.m_transactionRow.keys = (List.range blocks.length).reverse
  entries : ∀ (k : ℕ) (block : List StdString), blocks[k]? = some block →
    m.m_transactionRow.lookup k = some (entryOf blocks k block)

namespace Holds

variable {blocks : List (List StdString)} {m : MessagesModel}

theorem size_eq (h : Holds blocks m) : m.m_transactionRow.size = blocks.length := by
  rw [QHash.size, h.keys, List.length_reverse, List.length_range]

theorem contains_iff (h : Holds blocks m) (k : ℕ) :
    m.m_transactionRow.contains k = true ↔ k < blocks.length := by
  rw [QHash.contains_iff, h.keys, List.mem_reverse, List.mem_range]

theorem mem_iff (h : Holds blocks m) (k : ℕ) : k ∈ m.m_transactionRow ↔ k < blocks.length := by
  rw [AList.mem_keys, ← QHash.contains_iff, h.contains_iff]

/-- The fields of the reload do not matter. -/
theorem frame (h : Holds blocks m) {m' : MessagesModel} (hmessages : m'.m_messages = m.m_messages)
    (hrows : m'.m_transactionRow = m.m_transactionRow) : Holds blocks m' :=
  ⟨hmessages.trans h.messages, by rw [hrows]; exact h.keys, by rw [hrows]; exact h.entries⟩

/-- The hash entry of the next block. -/
theorem entries_concat (h : Holds blocks m) (last : List StdString) {rows : QHash ℕ (ℕ × ℕ)}
    (hrows : ∀ k : ℕ, rows.lookup k = if k = blocks.length then
      some (entryOf blocks blocks.length last) else m.m_transactionRow.lookup k)
    (k : ℕ) (block : List StdString) (hk : (blocks ++ [last])[k]? = some block) :
    rows.lookup k = some (entryOf (blocks ++ [last]) k block) := by
  rw [hrows]
  have hlt : k < (blocks ++ [last]).length := (List.getElem?_eq_some_iff.mp hk).1
  rw [List.length_append, List.length_singleton] at hlt
  split_ifs with heq
  · subst heq
    rw [List.getElem?_concat_length] at hk
    obtain rfl := Option.some.inj hk
    rw [entryOf, entryOf, offset_concat le_rfl]
  · have hlt' : k < blocks.length := by omega
    rw [List.getElem?_append_left hlt'] at hk
    rw [h.entries k block hk, entryOf, entryOf, offset_concat hlt'.le]

end Holds

theorem holds_cleared (cursor generation : ℕ) : Holds [] ⟨[], ∅, cursor, generation⟩ :=
  ⟨rfl, rfl, fun k block h => absurd h (by simp)⟩

/-! ### The catch-up loops -/

theorem appendTransaction_of_lt {blocks : List (List StdString)} {m : MessagesModel}
    (h : Holds blocks m) {id : ℕ} (hid : id < blocks.length) (wallet : Option Wallet)
    (inserted : ℕ) : appendTransaction wallet (m, inserted) id = (m, inserted) := by
  have hc : m.m_transactionRow.contains id = true := (h.contains_iff id).mpr hid
  simp [appendTransaction, hc]

theorem appendTransaction_of_le {wallet : Option Wallet} {id : ℕ}
    (h : getTransactionCount wallet ≤ id) (acc : MessagesModel × ℕ) :
    appendTransaction wallet acc id = acc := by
  simp [appendTransaction, (getTransaction_eq_none wallet id).mpr h]

theorem appendTransaction_reload (wallet : Option Wallet) (acc : MessagesModel × ℕ) (id : ℕ) :
    (appendTransaction wallet acc id).1.m_reloadTransactionId = acc.1.m_reloadTransactionId ∧
      (appendTransaction wallet acc id).1.m_reloadGeneration = acc.1.m_reloadGeneration := by
  obtain ⟨m, inserted⟩ := acc
  simp only [appendTransaction]
  split_ifs
  · exact ⟨rfl, rfl⟩
  · cases getTransaction wallet id with
    | none => exact ⟨rfl, rfl⟩
    | some t =>
      dsimp only
      split_ifs <;> exact ⟨rfl, rfl⟩

/-- One turn of a loop at the first missing id. -/
theorem Holds.step {blocks : List (List StdString)} {m : MessagesModel} (h : Holds blocks m)
    {wallet : Option Wallet} (hlt : blocks.length < getTransactionCount wallet) (inserted : ℕ) :
    Holds (blocks ++ [messagesOf wallet blocks.length])
      (appendTransaction wallet (m, inserted) blocks.length).1 := by
  obtain ⟨t, ht⟩ := Option.isSome_iff_exists.mp ((getTransaction_isSome wallet _).mpr hlt)
  have hmessages : messagesOf wallet blocks.length = t.messages := by rw [messagesOf, ht]; rfl
  have hc : m.m_transactionRow.contains blocks.length = false := by
    rw [← Bool.not_eq_true, h.contains_iff]
    exact lt_irrefl _
  have hnew : blocks.length ∉ m.m_transactionRow.keys := by
    rw [← QHash.contains_iff, hc]
    exact Bool.false_ne_true
  have hkeys (entry : ℕ × ℕ) : (m.m_transactionRow.insert blocks.length entry).keys =
      (List.range (blocks ++ [t.messages]).length).reverse := by
    rw [QHash.keys_insert_of_notMem hnew, h.keys]
    simp [List.range_succ]
  rw [hmessages]
  by_cases hempty : t.messages = []
  · simp only [appendTransaction, hc, ht, hempty, Bool.false_eq_true, if_false, if_true]
    rw [hempty] at hkeys
    refine ⟨by simp [h.messages], hkeys _, h.entries_concat [] fun k => ?_⟩
    rw [QHash.lookup_insert, entryOf, if_pos rfl]
  · simp only [appendTransaction, hc, ht, hempty, Bool.false_eq_true, if_false]
    refine ⟨by simp [h.messages], ?_, h.entries_concat t.messages fun k => ?_⟩
    · rw [AList.insert_insert]
      exact hkeys _
    · rw [AList.insert_insert, QHash.lookup_insert, entryOf, if_neg hempty, rowCount, h.messages,
        length_rows]

/-- The blocks with those of the wallet up to `n` after them. -/
def extended (wallet : Option Wallet) (blocks : List (List StdString)) (n : ℕ) :
    List (List StdString) :=
  blocks ++ (List.range' blocks.length (n - blocks.length)).map (messagesOf wallet)

theorem length_extended (wallet : Option Wallet) {blocks : List (List StdString)} {n : ℕ}
    (h : blocks.length ≤ n) : (extended wallet blocks n).length = n := by
  simp only [extended, List.length_append, List.length_map, List.length_range']
  omega

theorem extended_length (wallet : Option Wallet) (blocks : List (List StdString)) :
    extended wallet blocks blocks.length = blocks := by
  simp [extended]

theorem extended_succ (wallet : Option Wallet) {blocks : List (List StdString)} {n : ℕ}
    (h : blocks.length ≤ n) :
    extended wallet blocks (n + 1) = extended wallet blocks n ++ [messagesOf wallet n] := by
  have hsub : n + 1 - blocks.length = n - blocks.length + 1 := by omega
  have hlast : blocks.length + 1 * (n - blocks.length) = n := by omega
  simp only [extended, hsub, List.range'_concat, hlast, List.map_append, List.map_cons,
    List.map_nil, List.append_assoc]

/-- What a loop leaves: more blocks, and the fields of the reload as they were. -/
structure Appended (wallet : Option Wallet) (m : MessagesModel) (blocks : List (List StdString))
    (n : ℕ) (m' : MessagesModel) : Prop where
  le : blocks.length ≤ n
  holds : Holds (extended wallet blocks n) m'
  cursor : m'.m_reloadTransactionId = m.m_reloadTransactionId
  generation : m'.m_reloadGeneration = m.m_reloadGeneration

theorem Holds.appended {blocks : List (List StdString)} {m : MessagesModel} (h : Holds blocks m)
    (wallet : Option Wallet) : Appended wallet m blocks blocks.length m :=
  ⟨le_rfl, by rwa [extended_length], rfl, rfl⟩

/-- Both loops start at or before the first missing id. -/
theorem foldl_appended {blocks : List (List StdString)} {m : MessagesModel} (h : Holds blocks m)
    (wallet : Option Wallet) {start : ℕ} (hstart : start ≤ blocks.length) (k : ℕ) :
    Appended wallet m blocks
      (max blocks.length (min (start + k) (getTransactionCount wallet)))
      ((List.range' start k).foldl (appendTransaction wallet) (m, 0)).1 := by
  refine CatchUp.foldl_filled_of_le (fun n acc => Appended wallet m blocks n acc.1)
    (fun acc _ hle => appendTransaction_of_le hle acc) (fun acc n id hid ha => ?_)
    (fun acc n hn ha => ?_) (s := (m, 0)) (h.appended wallet) hstart k
  · exact appendTransaction_of_lt ha.holds (by rwa [length_extended wallet ha.le]) wallet acc.2
  · have hlen := length_extended wallet ha.le
    have hlt : (extended wallet blocks n).length < getTransactionCount wallet := by rwa [hlen]
    have hstep := ha.holds.step hlt acc.2
    rw [hlen, ← extended_succ wallet ha.le] at hstep
    obtain ⟨hcursor, hgeneration⟩ := appendTransaction_reload wallet acc n
    exact ⟨Nat.le_succ_of_le ha.le, hstep, hcursor.trans ha.cursor,
      hgeneration.trans ha.generation⟩

theorem transactionCreated_appended {blocks : List (List StdString)} {m : MessagesModel}
    (h : Holds blocks m) (wallet : Option Wallet) (id : ℕ) :
    Appended wallet m blocks (max blocks.length (min (id + 1) (getTransactionCount wallet)))
      (m.transactionCreated wallet id).model := by
  unfold transactionCreated
  split_ifs with hc
  · have hlt := (h.contains_iff id).mp hc
    have hmax : max blocks.length (min (id + 1) (getTransactionCount wallet)) = blocks.length := by
      omega
    rw [hmax]
    exact h.appended wallet
  · have hle : blocks.length ≤ id := not_lt.mp fun hlt => hc ((h.contains_iff id).mpr hlt)
    have happ := foldl_appended h wallet le_rfl (id + 1 - blocks.length)
    have hadd : blocks.length + (id + 1 - blocks.length) = id + 1 := by omega
    rw [hadd] at happ
    simpa only [h.size_eq] using happ

/-- A chunk of the current generation extends the blocks, moves the cursor within them, and is the
last one only when it has reached the count. -/
theorem processNextChunk_appended {blocks : List (List StdString)} {m : MessagesModel}
    (h : Holds blocks m) (hcursor : m.m_reloadTransactionId ≤ blocks.length)
    (wallet : Option Wallet) :
    let outcome := m.processNextChunk wallet m.m_reloadGeneration
    ∃ n, blocks.length ≤ n ∧ n ≤ max blocks.length (getTransactionCount wallet) ∧
      Holds (extended wallet blocks n) outcome.model ∧
      outcome.model.m_reloadTransactionId ≤ n ∧
      outcome.model.m_reloadGeneration = m.m_reloadGeneration ∧
      (∀ g ∈ outcome.timers, g = m.m_reloadGeneration) ∧
      (outcome.timers = [] → getTransactionCount wallet ≤ n) := by
  intro outcome
  have hout : outcome = m.processNextChunk wallet m.m_reloadGeneration := rfl
  simp only [processNextChunk, ne_eq, not_true_eq_false, if_false] at hout
  have happ := foldl_appended h wallet hcursor
    (min (m.m_reloadTransactionId + CHUNK_SIZE) (getTransactionCount wallet) -
      m.m_reloadTransactionId)
  refine ⟨_, happ.le, ?_, ?_, ?_, ?_, ?_, ?_⟩
  · omega
  · rw [hout]
    exact happ.holds.frame rfl rfl
  · rw [hout]
    dsimp only
    omega
  · rw [hout]
    exact happ.generation
  · rw [hout]
    dsimp only
    split_ifs <;> simp
  · rw [hout]
    dsimp only
    split_ifs
    · simp
    · intro _
      omega

/-- The handlers that clear the list. -/
def Event.clears : Event → Bool
  | .reloadWalletTransactions | .walletCloseCompleted => true
  | .processNextChunk _ | .transactionCreated _ | .transactionUpdated _
  | .lastKnownHeightUpdated => false

end ConcealDesktop.MessagesModel

/-! ### Runs -/

namespace ConcealDesktop.Models
open EventDriven EventDriven.Blocks MessagesModel WalletAdapter

/-- A pending timer of the current generation finds the cursor within the blocks. -/
structure Chunked (blocks : List (List StdString)) (s : State) : Prop where
  holds : Holds blocks s.messages
  fits : s.messages.m_messages.length < 2 ^ 31
  timers : ∀ g ∈ s.timers, g ≤ s.messages.m_reloadGeneration
  cursor : s.messages.m_reloadGeneration ∈ s.timers →
    s.messages.m_reloadTransactionId ≤ blocks.length

/-- What an event does to the blocks. -/
def Steps (s : State) (blocks blocks' : List (List StdString)) : Event → Prop
  | .messages e =>
    if e.clears then blocks' = []
    else ∃ n, blocks.length ≤ n ∧ n ≤ max blocks.length (getTransactionCount s.wallet) ∧
      blocks' = extended s.wallet blocks n
  | _ => blocks' = blocks

/-- Clearing starts a generation that no pending timer has. -/
theorem Chunked.clear {blocks : List (List StdString)} {s : State} (hs : Chunked blocks s)
    (hgeneration : s.messages.m_reloadGeneration + 1 < 2 ^ 64) {cursor : ℕ} {started : List ℕ}
    (hstarted : ∀ g ∈ started, g = s.messages.m_reloadGeneration + 1 ∧ cursor = 0) :
    Chunked [] { s with
      messages := ⟨[], ∅, cursor, (s.messages.m_reloadGeneration + 1) % 2 ^ 64⟩
      timers := s.timers ++ started } := by
  rw [Nat.mod_eq_of_lt hgeneration]
  refine ⟨holds_cleared _ _, by simp, fun g hg => ?_, fun hg => ?_⟩
  · rcases List.mem_append.mp hg with hg | hg
    · exact Nat.le_succ_of_le (hs.timers g hg)
    · exact (hstarted g hg).1.le
  · rcases List.mem_append.mp hg with hg | hg
    · exact absurd (hs.timers _ hg) (Nat.not_succ_le_self _)
    · exact (hstarted _ hg).2.le

/-- A handler that adds nothing leaves the blocks as they are. -/
theorem extended_same (wallet : Option Wallet) (blocks : List (List StdString)) :
    ∃ n, blocks.length ≤ n ∧ n ≤ max blocks.length (getTransactionCount wallet) ∧
      blocks = extended wallet blocks n :=
  ⟨blocks.length, le_rfl, le_max_left _ _, (extended_length _ _).symm⟩

/-- A chunk continues the reload that started its timer; the chunk of an earlier one is dropped. -/
theorem Chunked.nextChunk (env : Environment) {blocks : List (List StdString)} {s : State}
    (hs : Chunked blocks s) {g : ℕ} (he : enabled s (.messages (.processNextChunk g))) :
    ∃ blocks', Chunked blocks' (handle env s (.messages (.processNextChunk g))) ∧
      Steps s blocks blocks' (.messages (.processNextChunk g)) := by
  obtain ⟨hfits, he⟩ := he
  by_cases hg : g = s.messages.m_reloadGeneration
  · subst hg
    obtain ⟨n, hle, hmax, hholds, hcursor, hgeneration, htimers, -⟩ :=
      processNextChunk_appended hs.holds (hs.cursor he) s.wallet
    refine ⟨_, ⟨hholds, hfits, fun g hg => ?_, fun _ => ?_⟩, n, hle, hmax, rfl⟩
    · rcases List.mem_append.mp hg with hg | hg
      · exact (hs.timers g (List.mem_of_mem_erase hg)).trans_eq hgeneration.symm
      · exact (htimers g hg).le.trans_eq hgeneration.symm
    · rw [length_extended s.wallet hle]
      exact hcursor
  · have hmodel : s.messages.processNextChunk s.wallet g = ⟨s.messages, [], []⟩ := by
      simp [processNextChunk, hg]
    refine ⟨blocks, ?_, extended_same s.wallet blocks⟩
    simp only [handle, MessagesModel.handle, hmodel, timersAfter, List.append_nil]
    exact ⟨hs.holds, hs.fits, fun g' hg' => hs.timers g' (List.mem_of_mem_erase hg'),
      fun h => hs.cursor (List.mem_of_mem_erase h)⟩

theorem Chunked.step (env : Environment) {blocks : List (List StdString)} {s : State}
    (hs : Chunked blocks s) {e : Event} (he : enabled s e) :
    ∃ blocks', Chunked blocks' (handle env s e) ∧ Steps s blocks blocks' e := by
  cases e with
  | wallet wallet => exact ⟨blocks, ⟨hs.holds, hs.fits, hs.timers, hs.cursor⟩, rfl⟩
  | transactions e => exact ⟨blocks, ⟨hs.holds, hs.fits, hs.timers, hs.cursor⟩, rfl⟩
  | deposits e => exact ⟨blocks, ⟨hs.holds, hs.fits, hs.timers, hs.cursor⟩, rfl⟩
  | messages e =>
    cases e with
    | reloadWalletTransactions =>
      refine ⟨[], hs.clear he.2 fun g hg => ?_, rfl⟩
      exact ⟨(List.mem_singleton.mp hg).trans (Nat.mod_eq_of_lt he.2), rfl⟩
    | processNextChunk g => exact hs.nextChunk env he
    | transactionCreated id =>
      have happ := transactionCreated_appended hs.holds s.wallet id
      have htimers : (s.messages.transactionCreated s.wallet id).timers = [] := by
        unfold MessagesModel.transactionCreated
        split_ifs <;> rfl
      refine ⟨_, ?_, _, happ.le, max_le_max_left _ (min_le_right _ _), rfl⟩
      simp only [handle, MessagesModel.handle, htimers, timersAfter, List.append_nil]
      refine ⟨happ.holds, he.1, fun g hg => ?_, fun hg => ?_⟩
      · exact (hs.timers g hg).trans_eq happ.generation.symm
      · rw [length_extended s.wallet happ.le, happ.cursor]
        rw [happ.generation] at hg
        exact (hs.cursor hg).trans happ.le
    | transactionUpdated id =>
      refine ⟨blocks, ?_, extended_same s.wallet blocks⟩
      simp only [handle, MessagesModel.handle, timersAfter, List.append_nil]
      exact ⟨hs.holds, hs.fits, hs.timers, hs.cursor⟩
    | lastKnownHeightUpdated =>
      refine ⟨blocks, ?_, extended_same s.wallet blocks⟩
      simp only [handle, MessagesModel.handle, timersAfter, List.append_nil]
      exact ⟨hs.holds, hs.fits, hs.timers, hs.cursor⟩
    | walletCloseCompleted =>
      exact ⟨[], hs.clear he.2 fun g hg => absurd hg List.not_mem_nil, rfl⟩

/-- At some moment of the run these were the messages of a transaction of the open wallet. -/
def ReadIn (env : Environment) (h : List Event) (k : ℕ) (block : List StdString) : Prop :=
  ∃ earlier, earlier <:+ h ∧ k < getTransactionCount ((system env).after earlier).wallet ∧
    messagesOf ((system env).after earlier).wallet k = block

theorem ReadIn.cons {env : Environment} {h : List Event} {k : ℕ} {block : List StdString}
    (hread : ReadIn env h k block) (e : Event) : ReadIn env (e :: h) k block := by
  obtain ⟨earlier, hsuffix, hread⟩ := hread
  exact ⟨earlier, hsuffix.trans (List.suffix_cons e h), hread⟩

/-- The wallet still has the listed transactions, each with the same messages. -/
def KeepsMessages (n : ℕ) (old new : Option Wallet) : Prop :=
  n ≤ getTransactionCount new ∧ ∀ k : ℕ, k < n → messagesOf new k = messagesOf old k

/-- Since the list was last cleared the wallet has kept the messages of what is listed. -/
def MessagesKept (env : Environment) : List Event → Prop
  | [] => True
  | .messages e :: h => e.clears = true ∨ MessagesKept env h
  | .wallet wallet :: h => MessagesKept env h ∧ KeepsMessages
      ((system env).after h).messages.m_transactionRow.size ((system env).after h).wallet wallet
  | _ :: h => MessagesKept env h

/-- The blocks are the messages of the first transactions of the wallet as it is. -/
def Current (wallet : Option Wallet) (blocks : List (List StdString)) : Prop :=
  blocks.length ≤ getTransactionCount wallet ∧
    blocks = (List.range' 0 blocks.length).map (messagesOf wallet)

theorem Current.extended {wallet : Option Wallet} {blocks : List (List StdString)}
    (h : Current wallet blocks) {n : ℕ} (hle : blocks.length ≤ n) :
    MessagesModel.extended wallet blocks n = (List.range' 0 n).map (messagesOf wallet) := by
  have hblocks := h.2
  rw [MessagesModel.extended, ← CatchUp.range'_append_of_le hle, List.map_append, ← hblocks]

theorem getElem?_extended {wallet : Option Wallet} {blocks : List (List StdString)} {n k : ℕ}
    {block : List StdString} (h : (MessagesModel.extended wallet blocks n)[k]? = some block) :
    blocks[k]? = some block ∨ (blocks.length ≤ k ∧ k < n ∧ messagesOf wallet k = block) := by
  rcases Nat.lt_or_ge k blocks.length with hk | hk
  · rw [MessagesModel.extended, List.getElem?_append_left hk] at h
    exact .inl h
  · rw [MessagesModel.extended, List.getElem?_append_right hk, List.getElem?_map,
      Option.map_eq_some_iff] at h
    obtain ⟨j, hj, hblock⟩ := h
    obtain ⟨hlt, hj⟩ := List.getElem?_eq_some_iff.mp hj
    rw [List.length_range'] at hlt
    rw [List.getElem_range'] at hj
    have hjk : j = k := by omega
    exact .inr ⟨hk, by omega, hjk ▸ hblock⟩

/-- The run invariant: where the blocks come from, and that they are up to date while the wallet
keeps its messages. -/
structure BlocksOf (env : Environment) (h : List Event) (blocks : List (List StdString)) : Prop where
  chunked : Chunked blocks ((system env).after h)
  read : ∀ (k : ℕ) (block : List StdString), blocks[k]? = some block → ReadIn env h k block
  current : MessagesKept env h → Current ((system env).after h).wallet blocks

theorem BlocksOf.cons {env : Environment} {h : List Event} {blocks : List (List StdString)}
    (hb : BlocksOf env h blocks) {e : Event} (he : enabled ((system env).after h) e) :
    ∃ blocks', BlocksOf env (e :: h) blocks' ∧ Steps ((system env).after h) blocks blocks' e := by
  obtain ⟨blocks', hchunked, hsteps⟩ := hb.chunked.step env he
  refine ⟨blocks', ⟨hchunked, fun k block hk => ?_, fun hkept => ?_⟩, hsteps⟩
  · cases e with
    | messages e =>
      rw [Steps] at hsteps
      split_ifs at hsteps with hclears
      · simp [hsteps] at hk
      · obtain ⟨n, hle, hmax, rfl⟩ := hsteps
        rcases getElem?_extended hk with hk | ⟨hlen, hlt, hblock⟩
        · exact (hb.read k block hk).cons _
        · refine ⟨h, List.suffix_cons _ h, ?_, hblock⟩
          omega
    | _ =>
      obtain rfl : blocks' = blocks := hsteps
      exact (hb.read k block hk).cons _
  · cases e with
    | messages e =>
      rw [Steps] at hsteps
      split_ifs at hsteps with hclears
      · exact hsteps ▸ ⟨Nat.zero_le _, rfl⟩
      · obtain ⟨n, hle, hmax, rfl⟩ := hsteps
        have hcurrent := hb.current (hkept.resolve_left hclears)
        have hn : n ≤ getTransactionCount ((system env).after h).wallet := by
          have hlen := hcurrent.1
          omega
        refine ⟨?_, ?_⟩
        · rw [length_extended _ hle]
          exact hn
        · rw [length_extended _ hle]
          exact hcurrent.extended hle
    | wallet wallet =>
      obtain rfl : blocks' = blocks := hsteps
      obtain ⟨hlen, hblocks⟩ := hb.current hkept.1
      have hkeep := hkept.2
      rw [hb.chunked.holds.size_eq] at hkeep
      refine ⟨hkeep.1, hblocks.trans (List.map_congr_left fun k hk => ?_)⟩
      have hlt := (List.mem_range'_1.mp hk).2
      exact (hkeep.2 k (by omega)).symm
    | _ =>
      obtain rfl : blocks' = blocks := hsteps
      exact hb.current hkept

theorem exists_blocksOf {env : Environment} {h : List Event} (hadm : (system env).Admissible h) :
    ∃ blocks, BlocksOf env h blocks := by
  induction h with
  | nil =>
    have hfits : (0 : ℕ) < 2 ^ 31 := by decide
    refine ⟨[], ⟨holds_cleared 0 0, hfits, fun g hg => ?_, fun _ => Nat.zero_le _⟩,
      fun k block hk => absurd hk (by simp), fun _ => ⟨Nat.zero_le _, rfl⟩⟩
    exact absurd hg List.not_mem_nil
  | cons e h ih =>
    obtain ⟨blocks, hb⟩ := ih hadm.2
    obtain ⟨blocks', hb', -⟩ := hb.cons hadm.1
    exact ⟨blocks', hb'⟩

/-- The entry of a block is its first row and its length, and its rows are those of the id. -/
def EntryExact (blocks : List (List StdString)) (m : MessagesModel) (k : ℕ)
    (block : List StdString) : Prop :=
  m.m_transactionRow.lookup k = some (offset blocks k, block.length) ∧
    ∀ r : ℕ, (offset blocks k ≤ r ∧ r < offset blocks k + block.length) ↔
      ∃ text, m.m_messages[r]? = some (k, text)

theorem Chunked.entryExact {blocks : List (List StdString)} {s : State} (hs : Chunked blocks s)
    {k : ℕ} {block : List StdString} (hk : blocks[k]? = some block) (hblock : block ≠ []) :
    EntryExact blocks s.messages k block := by
  have hend := offset_add_le hk
  have hfits := hs.fits
  rw [hs.holds.messages] at hfits
  refine ⟨?_, fun r => ?_⟩
  · rw [hs.holds.entries k block hk, entryOf, if_neg hblock, Nat.mod_eq_of_lt (by omega),
      Nat.mod_eq_of_lt (by omega)]
  · rw [hs.holds.messages]
    exact (getElem?_rows_iff hk r).symm

/-- The chunk of a reload that was not interrupted by a reset, and that starts no other. -/
def LastChunk (s : State) (g : ℕ) : Prop :=
  enabled s (.messages (.processNextChunk g)) ∧ g = s.messages.m_reloadGeneration ∧
    (s.messages.processNextChunk s.wallet g).timers = []

/-- All transactions appended in one loop. -/
def oneShotReload (wallet : Option Wallet) : MessagesModel :=
  ((List.range' 0 (getTransactionCount wallet)).foldl (appendTransaction wallet)
    (MessagesModel.initial, 0)).1

theorem holds_oneShotReload (wallet : Option Wallet) :
    Holds ((List.range' 0 (getTransactionCount wallet)).map (messagesOf wallet))
      (oneShotReload wallet) := by
  have happ := (foldl_appended (holds_cleared 0 0) wallet (Nat.zero_le 0)
    (getTransactionCount wallet)).holds
  rw [oneShotReload, MessagesModel.initial]
  simpa [MessagesModel.extended] using happ

theorem holds_unique {blocks : List (List StdString)} {m m' : MessagesModel}
    (h : Holds blocks m) (h' : Holds blocks m') :
    m.m_messages = m'.m_messages ∧
      ∀ k : ℕ, m.m_transactionRow.lookup k = m'.m_transactionRow.lookup k := by
  refine ⟨h.messages.trans h'.messages.symm, ?_⟩
  intro k
  cases hk : blocks[k]? with
  | some block => rw [h.entries k block hk, h'.entries k block hk]
  | none =>
    have hle : ¬k < blocks.length := not_lt.mpr (List.getElem?_eq_none_iff.mp hk)
    rw [AList.lookup_eq_none.mpr fun hmem => hle ((h.mem_iff k).mp hmem),
      AList.lookup_eq_none.mpr fun hmem => hle ((h'.mem_iff k).mp hmem)]

/-- What the last chunk leaves: everything up to the count that it read, and, while the wallet
has kept its messages, the list and the entries of a reload in one go. -/
structure ReloadDone (env : Environment) (h : List Event) (m : MessagesModel) : Prop where
  present : ∀ k < getTransactionCount ((system env).after h).wallet, k ∈ m.m_transactionRow
  messages : MessagesKept env h →
    m.m_messages = (oneShotReload ((system env).after h).wallet).m_messages
  entries : MessagesKept env h → ∀ k : ℕ, m.m_transactionRow.lookup k =
    (oneShotReload ((system env).after h).wallet).m_transactionRow.lookup k

theorem BlocksOf.lastChunk {env : Environment} {h : List Event} {blocks : List (List StdString)}
    (hb : BlocksOf env h blocks) {g : ℕ} (hlast : LastChunk ((system env).after h) g) :
    ReloadDone env h
      (((system env).after h).messages.processNextChunk ((system env).after h).wallet g).model := by
  obtain ⟨⟨-, hpending⟩, rfl, htimers⟩ := hlast
  obtain ⟨n, hle, hmax, hholds, -, -, -, hreached⟩ := processNextChunk_appended hb.chunked.holds
    (hb.chunked.cursor hpending) ((system env).after h).wallet
  have hcount := hreached htimers
  have hsame (hkept : MessagesKept env h) := by
    have hcurrent := hb.current hkept
    have hn : n = getTransactionCount ((system env).after h).wallet := by
      have hlen := hcurrent.1
      omega
    rw [hcurrent.extended hle, hn] at hholds
    exact holds_unique hholds (holds_oneShotReload _)
  refine ⟨?_, fun hkept => (hsame hkept).1, fun hkept => (hsame hkept).2⟩
  intro k hk
  rw [hholds.mem_iff, length_extended _ hle]
  omega

/-- In every run the list is the concatenation of the blocks of the first transactions, as they
were read, with exact entries; when the last chunk of a reload has run, it is what a reload in one
go would have left. -/
theorem messages_listed_in_order {env : Environment} {h : List Event}
    (hadm : (system env).Admissible h) :
    let s := (system env).after h
    (∃ blocks : List (List StdString), s.messages.m_messages = rows blocks ∧
      (∀ k : ℕ, k ∈ s.messages.m_transactionRow ↔ k < blocks.length) ∧
      (∀ (k : ℕ) (block : List StdString), blocks[k]? = some block → ReadIn env h k block ∧
        (block ≠ [] → EntryExact blocks s.messages k block)) ∧
      (MessagesKept env h → Current s.wallet blocks)) ∧
    ∀ g, LastChunk s g → ReloadDone env h (s.messages.processNextChunk s.wallet g).model := by
  intro s
  obtain ⟨blocks, hb⟩ := exists_blocksOf hadm
  exact ⟨⟨blocks, hb.chunked.holds.messages, hb.chunked.holds.mem_iff,
    fun k block hk => ⟨hb.read k block hk, hb.chunked.entryExact hk⟩, hb.current⟩,
    fun g hlast => hb.lastChunk hlast⟩

/-- A created signal overtakes the only chunk of a reload; the transactions have one message, none
and two. -/
theorem messages_listed_in_order_run :
    let env := Environment.offline
    let transaction (messages : List StdString) : WalletTransaction :=
      ⟨.succeeded, 0, 1, [], 0, 0, false, [], messages, WALLET_INVALID_DEPOSIT_ID, 0, []⟩
    let wallet : Wallet := ⟨[transaction [bytes "a"], transaction [],
      transaction [bytes "b", bytes "c"]], [], by decide, by decide⟩
    let h : List Event := [.messages (.transactionCreated 1),
      .messages .reloadWalletTransactions, .wallet (some wallet)]
    let s := (system env).after h
    (system env).Admissible h ∧ s.messages.m_messages = [(0, bytes "a")] ∧
      ReloadDone env h (s.messages.processNextChunk s.wallet 1).model := by
  intro env transaction wallet h s
  have hadm : (system env).Admissible h := by decide
  exact ⟨hadm, by decide, (messages_listed_in_order hadm).2 1 ⟨by decide, by decide, by decide⟩⟩

end ConcealDesktop.Models
