import EncoderNext.Program
import EncoderNext.Bytes
import EncoderNext.WifiProfile
import EncoderNext.WifiDraft
import EncoderNext.WifiChange
import EncoderNext.ChangeSound
import EncoderNext.WifiRpc
import EncoderNext.RpcSound
import EncoderNext.RpcContract
import EncoderNext.RecoveryRecord
import EncoderNext.RecoveryWorld
import EncoderNext.WifiJournal
import EncoderNext.JournalSound
import EncoderNext.NetplanFiles
import EncoderNext.ManagedBackend
import EncoderNext.ManagedSound
import EncoderNext.ChangeDurable
import EncoderNext.Decimal
import EncoderNext.Base64
import EncoderNext.Records
import EncoderNext.Monitor
import EncoderNext.Accounts
import EncoderNext.Binding
import EncoderNext.Crypto
import EncoderNext.GostNative
import EncoderNext.CryptoEngine
import EncoderNext.Framing
import EncoderNext.LineFile
import EncoderNext.LockSound
import EncoderNext.StatsFile
import EncoderNext.BindingFile
import EncoderNext.EncryptRequest
import EncoderNext.Alerts
import EncoderNext.AccountRequests
import EncoderNext.FileRequests
import EncoderNext.Checks
import EncoderNext.UsersFile
import EncoderNext.Admission
import EncoderNext.Storage
import EncoderNext.MonitorEffect
import EncoderNext.MonitorLocks
import EncoderNext.MonitorWindows
import EncoderNext.BindingCut
import EncoderNext.BindingHistory
import EncoderNext.FileCalls
import EncoderNext.LoginGate
import EncoderNext.EvpSteps
import EncoderNext.DecryptFiles
import EncoderNext.ClientFiles
import EncoderNext.EncryptInPlace
import EncoderNext.Chaining
import EncoderNext.LegacyGost
import EncoderNext.FieldTable
import EncoderNext.SsidText
import EncoderNext.WifiLinkProbe
import EncoderNext.AccountHistory
import EncoderNext.NetworkStatus
import EncoderNext.UsersLines
import EncoderNext.AlertNumbers
import EncoderNext.PasswordEntry
import EncoderNext.NetplanPreflight
import EncoderNext.DraftCheck
import EncoderNext.PanelReports
import EncoderNext.AuditWorld
import EncoderNext.SmallState
import EncoderNext.ShortRequests
import EncoderNext.PanelReads
import EncoderNext.Base64Range
import EncoderNext.SsidPrint
import EncoderNext.Interleaving
import EncoderNext.KeyBlob
import EncoderNext.OwnedFile
import EncoderNext.ScanIpc
import EncoderNext.ScanSession
import EncoderNext.Migration
import EncoderNext.Preparation
import EncoderNext.PanelChange
import EncoderNext.ClientDecrypt
import EncoderNext.Container
import EncoderNext.Exchange
import EncoderNext.ServerOpens
import EncoderNext.ServerSeals
import EncoderNext.RoundTrip
import EncoderNext.FileReturns
import EncoderNext.ConnectDialog
import EncoderNext.RpcEnds
import EncoderNext.ConnectOrder
import EncoderNext.ConnectSound
import EncoderNext.OneAnswer
import EncoderNext.Authority
import EncoderNext.Pool
import EncoderNext.ScanLimit
import EncoderNext.SnapshotPublish
import EncoderNext.MainWindow
import EncoderNext.WindowSound
import EncoderNext.PasswordReminder
