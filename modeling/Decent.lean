import Decent.UndoMerge
import Decent.Signatures
import Decent.Unrepeated
import Decent.Replay
import Decent.Supply
import Decent.Delivery
import Decent.IndicesFollow
import Decent.CustodyWrapped
import Decent.Shamir
import Decent.Pools
import Decent.Crashes
import Decent.Reserved
import Decent.EscrowBook
import Decent.Issued
import Decent.Feeds
import Decent.Seeded
import Decent.Deliveries
import Decent.Connection
import Decent.Permissions
import Decent.LinearVesting
import Decent.Publishing
import Decent.Owners
import Decent.MinerBudget
import Decent.BlockFiles
import Decent.Synopsis
import Decent.Splits
import Decent.Rewards
import Decent.Ratings
import Decent.AuthorityComplete
import Decent.RequiredSignatures
import Decent.Seeding
import Decent.TransactionDetails
import Decent.AccountHistory
import Decent.PlannedMining
import Decent.Trading
import Decent.Subscribers
import Decent.MinerSchedule
import Decent.Elections
import Decent.SeedingRatings
import Decent.MerkleRoot
import Decent.AccountNames
import Decent.Threshold
import Decent.ExpiredTransactions
import Decent.Branches
import Decent.Participation
import Decent.Governance
import Decent.FeeQuotes
import Decent.EndedRenewals
import Decent.AmountForms
import Decent.ElGamal
import Decent.Extensions
import Decent.CustodyFiles
import Decent.CustodyVerdict
import Decent.NetAlways
import Decent.References
import Decent.StcpSocket
import Decent.SendQueue
import Decent.Archive
import Decent.HistoryApi
