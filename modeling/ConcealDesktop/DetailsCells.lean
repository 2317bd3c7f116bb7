import ConcealDesktop.TransactionDetails

/-! The cells that the details page is made of. Their texts are digits, dates, hexadecimal digits
and addresses, so no place marker of the page can come from them; the messages are the exception. -/
namespace ConcealDesktop
open QString

theorem QString.percent_notMem_number (n : ℕ) : qchar '%' ∉ number n :=
  fun h => QChar.ne_of_isDigit (isDigit_of_mem_number n _ h) (by decide) rfl

theorem QByteArray.percent_notMem_toHex (s : StdString) : 0x25 ∉ toUpper (toHex s) := by
  have hdigit : ∀ n < 16, (0x25 : UInt8) ∉ toUpper [toHexDigit n] := by decide
  induction s with
  | nil => decide
  | cons b s ih =>
    have hb := b.toNat_lt
    have hsplit : toUpper (toHex (b :: s)) = toUpper [toHexDigit (b.toNat / 16)] ++
        (toUpper [toHexDigit (b.toNat % 16)] ++ toUpper (toHex s)) := rfl
    rw [hsplit, List.mem_append, List.mem_append, not_or, not_or]
    exact ⟨hdigit _ (by omega), hdigit _ (by omega), ih⟩

theorem Environment.percent_notMem_extractPaymentId (env : Environment) (extra : StdString) :
    0x25 ∉ env.extractPaymentId extra := by
  have hdigit : ∀ n < 256, 0x25 ≠ (bytes "0123456789ABCDEF").getD n 0 := by decide +kernel
  unfold extractPaymentId
  cases env.paymentIdHash extra with
  | none => exact List.not_mem_nil
  | some hash =>
    intro h
    obtain ⟨b, -, hmem⟩ := List.mem_flatMap.mp h
    rw [List.mem_pair] at hmem
    exact hmem.elim (hdigit _ (b >>> 4).toNat_lt) (hdigit _ (b &&& 15).toNat_lt)

theorem CurrencyAdapter.percent_notMem_formatAmount (places : ℕ) (amount : UInt64) :
    qchar '%' ∉ formatAmount places amount := by
  obtain ⟨t, ht⟩ := formatAmount_text places amount
  have hwhole : qchar '%' ∉ t.whole :=
    fun h => QChar.ne_of_isDigit (t.isDigit_whole _ h) (by decide) rfl
  have hfraction : qchar '%' ∉ t.fraction :=
    fun h => QChar.ne_of_isDigit (t.isDigit_fraction _ h) (by decide) rfl
  have hremove : qchar '%' ∉ t.text.remove (qchar ',') := by
    rw [t.remove_text, List.mem_append, List.mem_cons, not_or, not_or]
    exact ⟨hwhole, by decide, hfraction⟩
  rw [ht]
  intro h
  exact hremove (List.mem_filter.mpr ⟨h, by decide⟩)

namespace TransactionDetailsDialog
open WalletAdapter QVariant

/-- The texts of Qt and of the core library without percent signs: decoded texts that had none,
times, rates, addresses, keys and hashes. -/
structure PlainTexts (f : Formats) (env : Environment) (wallet : Option Wallet)
    (deposits : DepositModel) : Prop where
  fromUtf8 : ∀ s, 0x25 ∉ s → qchar '%' ∉ f.fromUtf8 s
  time : ∀ t, qchar '%' ∉ f.time t
  rate : ∀ amount interest, qchar '%' ∉ f.rate amount interest
  address : 0x25 ∉ env.getAddress
  txKey : ∀ hash key, env.getTxKey hash = some key → 0x25 ∉ key
  transfer : ∀ id n transfer, getTransfer wallet id n = some transfer → 0x25 ∉ transfer.address
  pending : ∀ p ∈ deposits.m_pendingDeposits, 0x25 ∉ p.transactionHash

/-- The text of the cell has no percent sign. -/
def PlainCell (f : Formats) (v : QVariant) : Prop := qchar '%' ∉ v.toString f

section Cells

variable {f : Formats} {env : Environment} {wallet : Option Wallet} {deposits : DepositModel}

theorem plain_null : PlainCell f .null := List.not_mem_nil

theorem plain_text {s : QString} (h : qchar '%' ∉ s) : PlainCell f (.text s) := h

theorem plain_amount (amount : ℕ) : PlainCell f (.text (env.formatAmount amount)) :=
  CurrencyAdapter.percent_notMem_formatAmount _ _

theorem plain_int (n : ℤ) : PlainCell f (.int n) := by
  show qchar '%' ∉ if n < 0 then qchar '-' :: number n.natAbs else number n.natAbs
  split_ifs
  · rw [List.mem_cons, not_or]
    exact ⟨by decide, percent_notMem_number _⟩
  · exact percent_notMem_number _

theorem plain_ite {p : Prop} [Decidable p] {v w : QVariant} (hv : PlainCell f v)
    (hw : PlainCell f w) : PlainCell f (if p then v else w) := by
  split_ifs
  · exact hv
  · exact hw

theorem plain_dash : PlainCell f (.text (qstr "-")) := plain_text (by decide)

variable (h : PlainTexts f env wallet deposits)

include h

theorem plain_utf8 {s : StdString} (hs : 0x25 ∉ s) : PlainCell f (.utf8 s) := h.fromUtf8 s hs

theorem plain_dateText (t : ℕ) : PlainCell f (.dateText t) := h.time t

theorem plain_transferAddress {m : TransactionsModel} {index : QModelIndex}
    {r : TransactionsModel.Reading} (hr : m.read wallet index = some r) :
    0x25 ∉ r.transfer.address := by
  unfold TransactionsModel.read at hr
  split_ifs at hr
  simp only [TransactionsModel.readPair, Option.bind_eq_some_iff, Option.map_eq_some_iff] at hr
  obtain ⟨transaction, -, transfer, htransfer, deposit, -, rfl⟩ := hr
  unfold TransactionsModel.readTransfer at htransfer
  split_ifs at htransfer
  · rw [← Option.some.inj htransfer]
    exact List.not_mem_nil
  · exact h.transfer _ _ _ htransfer

theorem plain_secretkeyRole (index : QModelIndex) (r : TransactionsModel.Reading) :
    PlainCell f (TransactionsModel.getUserRole env index r .secretkey) := by
  unfold TransactionsModel.getUserRole
  dsimp only
  split
  · next key hkey => exact plain_utf8 h (h.txKey _ _ hkey)
  · exact plain_text (by decide)

/-- A cell of the transactions, except for the column of the message. -/
theorem plain_transactionCell (m : TransactionsModel) (row : ℤ)
    {column : TransactionsModel.Column} (hcolumn : column ≠ .message) :
    PlainCell f (TransactionsModel.data env wallet m
      (TransactionsModel.index row column.toInt) .display) := by
  unfold TransactionsModel.data
  cases hr : m.read wallet (TransactionsModel.index row column.toInt) with
  | none => exact plain_null
  | some r =>
    have haddress := plain_transferAddress h hr
    have hkey := plain_secretkeyRole h (TransactionsModel.index row column.toInt) r
    have hpayment : PlainCell f (TransactionsModel.getUserRole env
        (TransactionsModel.index row column.toInt) r .paymentId) :=
      plain_utf8 h (env.percent_notMem_extractPaymentId r.transaction.extra)
    show PlainCell f (TransactionsModel.getDisplayRole env _ r)
    unfold TransactionsModel.getDisplayRole
    simp only [TransactionsModel.index, TransactionsModel.Column.ofInt_toInt]
    cases column with
    | state | type => exact plain_null
    | message => exact absurd rfl hcolumn
    | date =>
      simp only [TransactionsModel.dateText]
      split
      · exact plain_dateText h _
      · exact plain_dash
    | amount =>
      have hamount (n : ℕ) : qchar '%' ∉ env.formatAmount n ++ qstr " CCX" := by
        rw [List.mem_append, not_or]
        exact ⟨plain_amount (f := f) n, by decide⟩
      dsimp only
      split_ifs
      · rw [PlainCell, QVariant.toString, List.mem_append, not_or]
        exact ⟨by decide, hamount _⟩
      · exact hamount _
    | confirmations =>
      exact plain_ite (plain_text (by decide)) (plain_ite (plain_text (by decide)) hpayment)
    | address =>
      have hown : 0x25 ∉ bytes "me (" ++ env.getAddress ++ bytes ")" := by
        simp only [List.mem_append, not_or]
        exact ⟨⟨by decide, h.address⟩, by decide⟩
      dsimp only
      split
      · exact plain_utf8 h hown
      · exact plain_utf8 h hown
      · exact plain_utf8 h hown
      · exact plain_ite (plain_text (by decide)) (plain_utf8 h haddress)
    | paymentId => exact hpayment
    | hash => exact h.fromUtf8 _ (QByteArray.percent_notMem_toHex _)
    | secretkey =>
      dsimp only
      split
      · exact plain_text (by decide)
      · exact plain_text (by decide)
      · exact plain_text (by decide)
      · exact plain_ite (plain_text (by decide)) hkey
    | fee => exact plain_amount _
    | height =>
      exact plain_ite plain_null (plain_text (percent_notMem_number _))

theorem plain_depositLink (m : TransactionsModel) (id : TransactionId)
    {column : TransactionsModel.Column} (hcolumn : column ≠ .message) :
    PlainCell f (DepositModel.linkedCell env wallet m id column) :=
  plain_ite plain_dash (plain_transactionCell h m _ hcolumn)

/-- A column of a pending deposit, except for the rate. -/
theorem plain_pendingCell (m : TransactionsModel) {pending : PendingDepositRow}
    (hpending : pending ∈ deposits.m_pendingDeposits) {column : DepositModel.Column}
    (hcolumn : column ≠ .termRate) :
    PlainCell f (DepositModel.pendingDisplayRole env wallet m pending column) := by
  cases column with
  | state | type => exact plain_text (by decide)
  | amount | interest | sum => exact plain_amount _
  | termRate => exact absurd rfl hcolumn
  | term => exact plain_ite (plain_int _) plain_dash
  | unlockHeight | unlockTime | spendingTransactionHash | spendingHeight | spendingTime =>
    exact plain_dash
  | creatingTransactionHash => exact plain_utf8 h (h.pending pending hpending)
  | creatingHeight => exact plain_ite plain_dash (plain_transactionCell h m _ nofun)
  | creatingTime =>
    apply plain_ite _ (plain_dateText h 0)
    split
    · exact plain_dateText h 0
    · exact plain_transactionCell h m _ nofun

/-- A column of a deposit of the wallet, except for the rate. -/
theorem plain_realCell (m : TransactionsModel) (depositId : DepositId) (index : QModelIndex)
    {column : DepositModel.Column} (hcolumn : column ≠ .termRate) :
    PlainCell f (DepositModel.realDisplayRole env wallet m depositId index column) := by
  have htime (state unlockHeight : ℕ) : PlainCell f (
      if state = 0 then
        if unlockHeight = WALLET_UNCONFIRMED_TRANSACTION_HEIGHT then .text (qstr "-")
        else .dateText (env.getExpectedTimeForHeight unlockHeight)
      else .dateTime none) :=
    plain_ite (plain_ite plain_dash (plain_dateText h _)) List.not_mem_nil
  have hhash (id : TransactionId) :
      PlainCell f (DepositModel.transactionCell env wallet m id .hash) :=
    plain_transactionCell h m _ nofun
  cases column with
  | state =>
    unfold DepositModel.realDisplayRole
    dsimp only
    split
    · exact plain_text (by decide)
    · exact plain_text (by decide)
    · exact plain_text (by decide)
    · exact plain_text (by decide)
  | amount | interest | sum => exact plain_amount _
  | termRate => exact absurd rfl hcolumn
  | term =>
    show PlainCell f (DepositModel.realUserRole env wallet m depositId index .depositTerm)
    unfold DepositModel.realUserRole
    split
    · exact plain_null
    · exact plain_int _
  | unlockHeight => exact plain_ite plain_dash (plain_int _)
  | unlockTime => exact htime _ _
  | type =>
    unfold DepositModel.realDisplayRole
    dsimp only
    apply plain_ite
    · exact plain_text (by decide)
    · apply plain_ite
      · exact plain_text (by decide)
      · apply plain_ite
        · exact plain_text (by decide)
        · exact htime _ _
  | creatingTransactionHash => exact hhash _
  | creatingHeight | creatingTime | spendingTransactionHash | spendingHeight | spendingTime =>
    exact plain_depositLink h m _ nofun

/-- The rate is followed by a percent sign that no digit follows. -/
theorem inert_rate (amount interest : ℕ) :
    scanning.Inert ((QVariant.rate amount interest).toString f) := by
  have hpieces : pieces 0 (qstr "%1 %") =
      [.hole 1 (qstr "%1"), .char (qchar ' '), .char (qchar '%')] := by decide
  have hmin : ((pieces 0 (qstr "%1 %")).filterMap pieceNumber?).min? = some 1 := by decide
  have htext : (qstr "%1 %").arg (f.rate amount interest) =
      f.rate amount interest ++ qstr " %" := by
    rw [arg, hmin]
    show Template.fill 1 _ (pieces 0 (qstr "%1 %")) = _
    rw [hpieces]
    rfl
  show Template.numbers (pieces 0 ((qstr "%1 %").arg (f.rate amount interest))) = []
  rw [htext, pieces_append (h.rate amount interest), Template.numbers_append,
    Template.numbers_chars]
  decide

omit h in
theorem mem_of_access {deposits : DepositModel} {row : ℤ} {pending : PendingDepositRow}
    (haccess : deposits.access row = .pending pending) : pending ∈ deposits.m_pendingDeposits := by
  unfold DepositModel.access at haccess
  split_ifs at haccess
  split at haccess
  · next found hfound =>
    injection haccess with heq
    exact heq ▸ List.mem_of_getElem? hfound
  · cases haccess

omit h in
/-- A displayed deposit cell is empty or a column of a pending or of a real deposit. -/
theorem depositCell_cases {m : TransactionsModel} {row : ℤ} {column : DepositModel.Column}
    {v : QVariant} (hv : DepositModel.data env wallet m deposits
      (DepositModel.index row column.toInt) .display = some v) :
    v = .null ∨
      (∃ pending ∈ deposits.m_pendingDeposits,
        v = DepositModel.pendingDisplayRole env wallet m pending column) ∨
      ∃ depositId index, v = DepositModel.realDisplayRole env wallet m depositId index column := by
  unfold DepositModel.data at hv
  split_ifs at hv
  · exact .inl (Option.some.inj hv).symm
  · simp only [DepositModel.getDisplayRole, DepositModel.index_row, DepositModel.index_column,
      DepositModel.Column.ofInt_toInt] at hv
    cases haccess : deposits.access row with
    | real depositId =>
      rw [haccess] at hv
      exact .inr (.inr ⟨depositId, _, (Option.some.inj hv).symm⟩)
    | pending pending =>
      rw [haccess] at hv
      exact .inr (.inl ⟨pending, mem_of_access haccess, (Option.some.inj hv).symm⟩)
    | outOfBounds index =>
      rw [haccess] at hv
      cases hv

theorem inert_depositCell {m : TransactionsModel} {row : ℤ} {column : DepositModel.Column}
    {v : QVariant} (hv : DepositModel.data env wallet m deposits
      (DepositModel.index row column.toInt) .display = some v) :
    (column ≠ .termRate → PlainCell f v) ∧ scanning.Inert (v.toString f) := by
  have hboth (hplain : column ≠ .termRate → PlainCell f v)
      (hrate : column = .termRate → scanning.Inert (v.toString f)) :
      (column ≠ .termRate → PlainCell f v) ∧ scanning.Inert (v.toString f) := by
    refine ⟨hplain, ?_⟩
    by_cases hcolumn : column = .termRate
    · exact hrate hcolumn
    · exact inert_of_percent (hplain hcolumn)
  rcases depositCell_cases hv with rfl | ⟨pending, hpending, rfl⟩ | ⟨depositId, index, rfl⟩
  · exact ⟨fun _ => plain_null, inert_of_percent List.not_mem_nil⟩
  · apply hboth (plain_pendingCell h m hpending)
    rintro rfl
    show scanning.Inert ((if pending.amount = 0 then _ else _ : QVariant).toString f)
    split_ifs
    · exact inert_of_percent (plain_dash (f := f))
    · exact inert_rate h _ _
  · apply hboth (plain_realCell h m depositId index)
    rintro rfl
    exact inert_rate h _ _

theorem inert_depositText {m : TransactionsModel} {depositId : DepositId}
    {column : DepositModel.Column} {text : QString}
    (htext : depositText f env wallet m deposits depositId column = some text) :
    scanning.Inert text := by
  unfold depositText at htext
  obtain ⟨v, hv, rfl⟩ := Option.map_eq_some_iff.mp htext
  obtain ⟨hplain, hinert⟩ := inert_depositCell h hv
  have hamount (hcolumn : column ≠ .termRate) :
      scanning.Inert (v.toString f ++ qchar ' ' :: currencyTicker) := by
    apply inert_of_percent
    rw [List.mem_append, not_or]
    exact ⟨hplain hcolumn, by decide⟩
  split
  · exact hamount nofun
  · exact hamount nofun
  · exact hamount nofun
  · exact hinert

end Cells

theorem mapM_eq_some {α β : Type} {g : α → Option β} {l : List α} {r : List β}
    (h : l.mapM g = some r) : r.length = l.length ∧ ∀ b ∈ r, ∃ a ∈ l, g a = some b := by
  induction l generalizing r with
  | nil =>
    rw [List.mapM_nil] at h
    rw [← Option.some.inj h]
    exact ⟨rfl, nofun⟩
  | cons a l ih =>
    rw [List.mapM_cons] at h
    obtain ⟨b, hb, hrest⟩ := Option.bind_eq_some_iff.mp h
    obtain ⟨r', hr', hsome⟩ := Option.bind_eq_some_iff.mp hrest
    obtain ⟨hlength, hmem⟩ := ih hr'
    rw [← Option.some.inj hsome]
    refine ⟨congrArg (· + 1) hlength, ?_⟩
    intro c hc
    rcases List.mem_cons.mp hc with rfl | hc
    · exact ⟨a, List.mem_cons_self, hb⟩
    · obtain ⟨x, hx, hg⟩ := hmem c hc
      exact ⟨x, List.mem_cons_of_mem a hx, hg⟩

theorem inert_fields {d : Details} (hdate : scanning.Inert d.date)
    (haddress : scanning.Inert d.address) (hamount : scanning.Inert d.amountText)
    (hfee : scanning.Inert d.feeText) (hpaymentId : scanning.Inert d.paymentId)
    (hhash : scanning.Inert d.hash) (hkey : scanning.Inert d.secretKey) :
    ∀ n ∈ [2, 4, 5, 6, 8, 9, 10], scanning.Inert (d.field n) := by
  intro n hn
  simp only [List.mem_cons, List.not_mem_nil, or_false] at hn
  rcases hn with rfl | rfl | rfl | rfl | rfl | rfl | rfl
  · exact hdate
  · exact haddress
  · exact hamount
  · exact hfee
  · exact hpaymentId
  · exact hhash
  · exact hkey

/-- Only the messages of what the dialog reads can hold place markers. -/
theorem plain_of_read {f : Formats} {env : Environment} {wallet : Option Wallet}
    {transactions : TransactionsModel} {deposits : DepositModel}
    (h : PlainTexts f env wallet deposits) {row : ℤ} {d : Details}
    (hread : read f env wallet transactions deposits row = some d) : d.Plain := by
  have hcell {column : TransactionsModel.Column} (hcolumn : column ≠ .message) :
      scanning.Inert (cellText f env wallet transactions row column) :=
    inert_of_percent (plain_transactionCell h transactions row hcolumn)
  have hfee : scanning.Inert (feeText env wallet transactions row) := by
    apply inert_of_percent
    rw [feeText, List.mem_append, not_or]
    exact ⟨plain_amount (f := f) _, by decide⟩
  unfold read at hread
  dsimp only at hread
  split_ifs at hread
  · rw [← Option.some.inj hread]
    exact ⟨inert_fields (hcell nofun) (hcell nofun) (hcell nofun) hfee (hcell nofun)
      (hcell nofun) (hcell nofun), nofun⟩
  · obtain ⟨columns, hcolumns, rfl⟩ := Option.map_eq_some_iff.mp hread
    obtain ⟨hlength, hmem⟩ := mapM_eq_some hcolumns
    refine ⟨inert_fields (hcell nofun) (hcell nofun) (hcell nofun) hfee (hcell nofun)
      (hcell nofun) (hcell nofun), ?_⟩
    intro found hfound
    rw [← Option.some.inj hfound]
    refine ⟨hlength, fun s hs => ?_⟩
    obtain ⟨column, -, htext⟩ := hmem s hs
    exact inert_depositText h htext

/-- The page puts every field into its own place exactly when no message holds a place marker with
a number up to 12, and then only the section of the messages depends on them. -/
theorem fields_in_place_iff {f : Formats} {env : Environment} {wallet : Option Wallet}
    {transactions : TransactionsModel} {deposits : DepositModel}
    (h : PlainTexts f env wallet deposits) {row : ℤ} {d : Details}
    (hread : read f env wallet transactions deposits row = some d) :
    (d.html = d.htmlInPlace ↔ Details.MarkersAbove d.messageList) ∧
      ∃ before after, ∀ l, { d with messageList := l }.html =
          before ++ { d with messageList := l }.messagesText ++ after ↔
        Details.MarkersAbove l :=
  ⟨Details.html_iff (plain_of_read h hread), Details.html_around (plain_of_read h hread)⟩

/-- A wallet that has received one transaction with a message. -/
def receivedWallet (message : String) : Wallet where
  transactions := [⟨.succeeded, 0, 5, List.replicate 32 0xab, 2500000, 1000, false, [],
    [bytes message], WALLET_INVALID_DEPOSIT_ID, 0, []⟩]
  deposits := []
  transactions_lt := Wallet.one_lt
  deposits_lt := Wallet.none_lt

def asciiFormats : Formats where
  fromUtf8 s := s.map UInt8.toUInt16
  time _ := qstr "1970-01-01 00:00"
  rate _ _ := qstr "0.000000"

def ownEnvironment : Environment :=
  { Environment.offline with getAddress := bytes "ccx7own", getLastKnownBlockHeight := 14 }

/-- What the dialog reads for that transaction. -/
def receivedDetails (message : String) : Details where
  numberOfConfirmations := 10
  date := qstr "-"
  address := qstr "me (ccx7own)"
  amountText := qstr "2.50 CCX"
  feeText := qstr "0.001 CCX"
  paymentId := []
  hash := qstr "ABABABABABABABABABABABABABABABABABABABABABABABABABABABABABABABAB"
  secretKey := qstr "not applicable"
  messageList := [asciiFormats.fromUtf8 (bytes message)]
  deposit := none

/-- The table of that wallet. -/
def receivedRows (message : String) : TransactionsModel :=
  (TransactionsModel.empty.reloadWalletTransactions (some (receivedWallet message))).1

theorem plainTexts_received (message : String) :
    PlainTexts asciiFormats ownEnvironment (some (receivedWallet message)) DepositModel.initial where
  fromUtf8 s hs h := by
    obtain ⟨b, hb, heq⟩ := List.mem_map.mp h
    have hbyte : b = 0x25 := UInt8.toNat_inj.mp (congrArg UInt16.toNat heq)
    exact hs (hbyte ▸ hb)
  time _ := show qchar '%' ∉ qstr "1970-01-01 00:00" by decide
  rate _ _ := show qchar '%' ∉ qstr "0.000000" by decide
  address := by decide
  txKey := nofun
  transfer id n transfer h := by
    obtain ⟨t, ht, htransfer⟩ := Option.bind_eq_some_iff.mp h
    have hmem := List.mem_of_getElem? ht
    rw [List.mem_singleton.mp hmem] at htransfer
    cases htransfer
  pending := nofun

theorem fields_in_place_iff_received : ∃ d,
    read asciiFormats ownEnvironment (some (receivedWallet "100% sure, %20 off"))
      (receivedRows "100% sure, %20 off") DepositModel.initial 0 = some d ∧
    d.html = d.htmlInPlace := by
  have hread : read asciiFormats ownEnvironment (some (receivedWallet "100% sure, %20 off"))
      (receivedRows "100% sure, %20 off") DepositModel.initial 0 =
      some (receivedDetails "100% sure, %20 off") := by decide +kernel
  refine ⟨_, hread, (fields_in_place_iff (plainTexts_received _) hread).1.mpr ?_⟩
  decide

/-- The message takes the deposit information, and the place of that stays open. -/
theorem fields_not_in_place : ∃ d,
    read asciiFormats ownEnvironment (some (receivedWallet "%1")) (receivedRows "%1")
      DepositModel.initial 0 = some d ∧ d.html ≠ d.htmlInPlace := by
  have hread : read asciiFormats ownEnvironment (some (receivedWallet "%1")) (receivedRows "%1")
      DepositModel.initial 0 = some (receivedDetails "%1") := by decide +kernel
  refine ⟨_, hread, fun h => ?_⟩
  have habove := (Details.html_iff (plain_of_read (plainTexts_received _) hread)).mp h
  revert habove
  decide

end TransactionDetailsDialog
end ConcealDesktop
