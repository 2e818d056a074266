import Hcexplorer.Library.Runs
import Hcexplorer.Library.LinkedChain
import Hcexplorer.Library.KeyedTable
import Hcexplorer.MaturingTickets
import Hcexplorer.StakeFollower
import Hcexplorer.CollectedBlocks
import Hcexplorer.Hcpg.BlockLinks
import Hcexplorer.Hcpg.Completeness
import Hcexplorer.Hcpg.BlockEffect
import Hcexplorer.Hcpg.ColumnRanges
import Hcexplorer.Hcpg.AddressIndex
import Hcexplorer.Hcpg.UniqueIndexes
import Hcexplorer.Hcpg.SpendingPaths
import Hcexplorer.Hcpg.SpendingChunks
import Hcexplorer.Hcsqlite.OfflineReorganization
import Hcexplorer.Hcsqlite.LiveStores
import Hcexplorer.Hcsqlite.SideChainSwitch
import Hcexplorer.Hcpg.StoreInterleavings
import Hcexplorer.Hcpg.Retries
import Hcexplorer.BlockHandshakes
import Hcexplorer.PoolValue
import Hcexplorer.StakeTree
import Hcexplorer.StakeSwitch
import Hcexplorer.StakeFailures
import Hcexplorer.ApiStatus
import Hcexplorer.Mempool
import Hcexplorer.MempoolCache
import Hcexplorer.WebUI
import Hcexplorer.Txhelpers.WatchedAddresses
import Hcexplorer.Txhelpers.VoteChoices
import Hcexplorer.Hcsqlite.ExplorerTx
import Hcexplorer.BlockRanges
import Hcexplorer.BlockSizes
import Hcexplorer.AmountParts
import Hcexplorer.Hcpg.FeesStat
import Hcexplorer.Hcpg.Confirmations
import Hcexplorer.Hcpg.AddressCache
import Hcexplorer.Hcpg.AddressHistory
import Hcexplorer.Hcdataapi.QueueOrder
import Hcexplorer.Hcdataapi.Eviction
import Hcexplorer.ClosedClients
import Hcexplorer.Hcdataapi.TopHeights
import Hcexplorer.Hcdataapi.HeightBounds
import Hcexplorer.Hcdataapi.AccessTimeOrder
import Hcexplorer.Hcdataapi.HeightIndex
import Hcexplorer.Hcdataapi.CacheLocks
import Hcexplorer.Dbtypes.ArrayGrammar
import Hcexplorer.Dbtypes.ArrayValues
import Hcexplorer.Hcpg.Queries
import Hcexplorer.Hcpg.TxRoundTrip
import Hcexplorer.Hcpg.BlockStatements
import Hcexplorer.Hcpg.ChartValue
import Hcexplorer.Hcpg.MempoolKline
import Hcexplorer.Hcpg.ScriptInfo
import Hcexplorer.LiveHistory
import Hcexplorer.StartupSync
import Hcexplorer.BlockRoutes
import Hcexplorer.StakeRanges
import Hcexplorer.Hcsqlite.ExplorerBlock
import Hcexplorer.ExplorerPages
import Hcexplorer.ExplorerSearch
import Hcexplorer.Hcpg.ConcurrentSetups
import Hcexplorer.TransactionPage
import Hcexplorer.AddressPages
