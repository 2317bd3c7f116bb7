import ConcealDesktop.Library.EventSystem
import ConcealDesktop.Library.Separation
import ConcealDesktop.Library.CatchUp
import ConcealDesktop.Library.Blocks
import ConcealDesktop.Library.Grouping
import ConcealDesktop.Library.Template
import ConcealDesktop.Library.Programs
import ConcealDesktop.Library.KeyedLists
import ConcealDesktop.Library.Checks
import ConcealDesktop.Library.RowChanges
import ConcealDesktop.Library.Occurrences
import ConcealDesktop.Library.StableSort
import ConcealDesktop.Library.Scanner
import ConcealDesktop.Library.Slots
import ConcealDesktop.Library.Loops
import ConcealDesktop.Text
import ConcealDesktop.Wallet
import ConcealDesktop.ItemModel
import ConcealDesktop.CurrencyAdapter
import ConcealDesktop.AmountText
import ConcealDesktop.SendFunds
import ConcealDesktop.SendWait
import ConcealDesktop.Completions
import ConcealDesktop.Deposits
import ConcealDesktop.TransactionsModel
import ConcealDesktop.MessagesModel
import ConcealDesktop.DepositModel
import ConcealDesktop.Models
import ConcealDesktop.TransactionRows
import ConcealDesktop.RowRanges
import ConcealDesktop.CellSources
import ConcealDesktop.MessageBlocks
import ConcealDesktop.DepositRows
import ConcealDesktop.PendingDeposits
import ConcealDesktop.Message
import ConcealDesktop.MessageEncoding
import ConcealDesktop.Settings
import ConcealDesktop.AddressBook
import ConcealDesktop.Notifications
import ConcealDesktop.WalletPointer
import ConcealDesktop.WalletFiles
import ConcealDesktop.Encryption
import ConcealDesktop.ImportKeys
import ConcealDesktop.OptimizationManager
import ConcealDesktop.BlockStatus
import ConcealDesktop.ExchangeLookup
import ConcealDesktop.RecentTransactions
import ConcealDesktop.SendMessage
import ConcealDesktop.ContactDialog
import ConcealDesktop.RowNotifications
import ConcealDesktop.TrackingKey
import ConcealDesktop.AliasRecords
import ConcealDesktop.IntegratedAddress
import ConcealDesktop.AmountReader
import ConcealDesktop.PaymentId
import ConcealDesktop.Confirmations
import ConcealDesktop.CellInputs
import ConcealDesktop.TransactionTypes
import ConcealDesktop.MessageCells
import ConcealDesktop.MessageEscapes
import ConcealDesktop.SortedModels
import ConcealDesktop.UpdateManager
import ConcealDesktop.AmountOrder
import ConcealDesktop.DepositListModel
import ConcealDesktop.Delay
import ConcealDesktop.EncryptDialogs
import ConcealDesktop.MessageEditor
import ConcealDesktop.PlaceMarkers
import ConcealDesktop.TransactionDetails
import ConcealDesktop.DetailsCells
import ConcealDesktop.AddressBookRows
import ConcealDesktop.OptimizationTimers
import ConcealDesktop.Library.ExponentField
import ConcealDesktop.Library.Syndromes
import ConcealDesktop.Qrencode.Rsecc
import ConcealDesktop.Qrencode.Qrinput
import ConcealDesktop.Qrencode.Segments
import ConcealDesktop.Qrencode.Split
import ConcealDesktop.Qrencode.RawCode
import ConcealDesktop.Qrencode.Frame
import ConcealDesktop.Qrencode.FrameFiller
import ConcealDesktop.Qrencode.Mask
import ConcealDesktop.Qrencode.Encode
