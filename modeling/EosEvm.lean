import EosEvm.Lib.Abort
import EosEvm.Lib.Agree
import EosEvm.Lib.Abi
import EosEvm.Lib.Table
import EosEvm.Lib.Index
import EosEvm.Lib.Words
import EosEvm.Lib.Replay
import EosEvm.Lib.Schedule
import EosEvm.Lib.Refs
import EosEvm.Cdt
import EosEvm.Types
import EosEvm.DustCore
import EosEvm.Dust
import EosEvm.DustWords
import EosEvm.PromoterCore
import EosEvm.ConfigCore
import EosEvm.BridgeCore
import EosEvm.DbCore
import EosEvm.SilkwormCore
import EosEvm.ExecuteCore
import EosEvm.ContractCore
import EosEvm.ActionsCore
import EosEvm.HostCore
import EosEvm.LedgerCore
import EosEvm.Host
import EosEvm.Promoter
import EosEvm.Config
import EosEvm.ConfigToken
import EosEvm.DbTotals
import EosEvm.StateMapCore
import EosEvm.DbSound
import EosEvm.StateMap
import EosEvm.StateRefines
import EosEvm.DbConsistent
import EosEvm.Funds
import EosEvm.Execute
import EosEvm.Contract
import EosEvm.Actions
import EosEvm.Effects
import EosEvm.Authenticity
import EosEvm.Reconfigure
import EosEvm.GasReplay
import EosEvm.PriceQueue
import EosEvm.Headers
import EosEvm.Repricing
import EosEvm.QueueFront
import EosEvm.PriceSchedule
import EosEvm.PricesSchedule
import EosEvm.Backing
import EosEvm.Ledger
import EosEvm.Solvency
import EosEvm.Moves
import EosEvm.Opened
import EosEvm.Tidy
import EosEvm.Loose
import EosEvm.Calls
import EosEvm.Egress
import EosEvm.Delivery
import EosEvm.Debits
import EosEvm.Nonces
import EosEvm.ConfigAuthority
import EosEvm.Initialisation
import EosEvm.Swap
import EosEvm.Migration
import EosEvm.Bridge
import EosEvm.GarbageCollection
import EosEvm.AdminEdits
import EosEvm.Simulation
import EosEvm.MinerCut
import EosEvm.GasCost
import EosEvm.Rows
import EosEvm.GasIncome
import EosEvm.MinerShare
import EosEvm.GasPayer
import EosEvm.Addresses
import EosEvm.Ingress
import EosEvm.SelfPaid
import EosEvm.Promotion
import EosEvm.StoragePrice
import EosEvm.Timeline
import EosEvm.Node
import EosEvm.Books
import EosEvm.Frozen
import EosEvm.Lib.Slots
import EosEvm.Accounts
import EosEvm.MigrationProgress
import EosEvm.Senders
import EosEvm.Redeem
import EosEvm.Dispatch
import EosEvm.Drain
import EosEvm.Registry
import EosEvm.GasBounds
import EosEvm.Spending
import EosEvm.Once
import EosEvm.Versions
import EosEvm.EvmMap
import EosEvm.FrozenAccounts
