import LibbitcoinServer.Admin.Filter
import LibbitcoinServer.Bitcoind.DeriveAddresses
import LibbitcoinServer.Bitcoind.DescriptorActivity
import LibbitcoinServer.Bitcoind.ImportMempool
import LibbitcoinServer.Bitcoind.NetTotals
import LibbitcoinServer.Bitcoind.NewBlock
import LibbitcoinServer.Bitcoind.Ranges
import LibbitcoinServer.Bitcoind.Rest
import LibbitcoinServer.Bitcoind.ScanTxOutSet
import LibbitcoinServer.Bitcoind.TxOutProof
import LibbitcoinServer.Bitcoind.TxOutSetInfo
import LibbitcoinServer.Bitcoind.UpdatePsbt
import LibbitcoinServer.Bitcoind.Wait
import LibbitcoinServer.Btcd.Budget
import LibbitcoinServer.Btcd.Filter
import LibbitcoinServer.Btcd.Live
import LibbitcoinServer.Btcd.Matching
import LibbitcoinServer.Btcd.Reorganized
import LibbitcoinServer.Btcd.Rescan
import LibbitcoinServer.Dispatch.Gate
import LibbitcoinServer.Dispatch.Protocols
import LibbitcoinServer.Dispatch.Responder
import LibbitcoinServer.Electrum.BlockHeaders
import LibbitcoinServer.Electrum.Established
import LibbitcoinServer.Electrum.Handshake
import LibbitcoinServer.Electrum.HeaderFeed
import LibbitcoinServer.Electrum.Negotiation
import LibbitcoinServer.Electrum.OutpointFeed
import LibbitcoinServer.Electrum.Outpoints
import LibbitcoinServer.Electrum.Request
import LibbitcoinServer.Electrum.ScripthashFeed
import LibbitcoinServer.Electrum.Status
import LibbitcoinServer.Electrum.Subscriptions
import LibbitcoinServer.Electrum.Tables
import LibbitcoinServer.Electrum.Told
import LibbitcoinServer.Electrum.Version
import LibbitcoinServer.Esplora.AddressTxs
import LibbitcoinServer.Esplora.Archive
import LibbitcoinServer.Esplora.Blocks
import LibbitcoinServer.Esplora.Outspends
import LibbitcoinServer.Lib.Bytes
import LibbitcoinServer.Lib.Counting
import LibbitcoinServer.Lib.Double
import LibbitcoinServer.Lib.Feed
import LibbitcoinServer.Lib.Format
import LibbitcoinServer.Lib.Greedy
import LibbitcoinServer.Lib.Ledger
import LibbitcoinServer.Lib.LevelTree
import LibbitcoinServer.Lib.OrderedMap
import LibbitcoinServer.Lib.Paging
import LibbitcoinServer.Lib.Quantile
import LibbitcoinServer.Lib.Reads
import LibbitcoinServer.Lib.Register
import LibbitcoinServer.Lib.Run
import LibbitcoinServer.Lib.Sink
import LibbitcoinServer.Lib.Text
import LibbitcoinServer.Lib.Traverse
import LibbitcoinServer.Lib.Waiting
import LibbitcoinServer.Merkle.Blocks
import LibbitcoinServer.Merkle.Bounds
import LibbitcoinServer.Merkle.Flags
import LibbitcoinServer.Merkle.PartialTree
import LibbitcoinServer.Merkle.Root
import LibbitcoinServer.Merkle.RoundTrip
import LibbitcoinServer.Merkle.Soundness
import LibbitcoinServer.Merkle.Walk
import LibbitcoinServer.Native.Top
import LibbitcoinServer.Parsers.Bitcoind
import LibbitcoinServer.Parsers.Esplora
import LibbitcoinServer.Parsers.Native
import LibbitcoinServer.Parsers.Target
import LibbitcoinServer.Serializers.BlockStats
import LibbitcoinServer.Services.FeeEstimates
import LibbitcoinServer.Services.FeeTarget
import LibbitcoinServer.Services.RawTransaction
import LibbitcoinServer.Services.Tips
import LibbitcoinServer.Sparrow.Coalesced
import LibbitcoinServer.Sparrow.Cuts
import LibbitcoinServer.Sparrow.Silent
import LibbitcoinServer.Store.Ancestry
import LibbitcoinServer.Store.Archive
import LibbitcoinServer.Store.Chain
import LibbitcoinServer.Store.Coins
import LibbitcoinServer.Store.Supply
import LibbitcoinServer.Store.Tip
import LibbitcoinServer.Store.Transactions
import LibbitcoinServer.Utilities.Checksum
import LibbitcoinServer.Utilities.Combine
import LibbitcoinServer.Utilities.Endorsements
import LibbitcoinServer.Utilities.FeeHistogram
import LibbitcoinServer.Utilities.MempoolFile
import LibbitcoinServer.Utilities.PolyMod
import LibbitcoinServer.Zmq.Demand
import LibbitcoinServer.Zmq.Stream
import LibbitcoinServer.Zmq.Topics
