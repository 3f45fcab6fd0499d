import EthIndexer.Store.Answers
import EthIndexer.Store.Batches
import EthIndexer.Store.ReadBack
import EthIndexer.Store.Connections
import EthIndexer.Store.Pointers
import EthIndexer.Indexer.Acceptance
import EthIndexer.Indexer.Forks
import EthIndexer.Indexer.Poll
import EthIndexer.Indexer.Progress
import EthIndexer.Indexer.Reorg
import EthIndexer.Indexer.Resize
import EthIndexer.Indexer.Writers
import EthIndexer.Server.Cursor
import EthIndexer.Server.Browse
import EthIndexer.Server.Node
import EthIndexer.Runtime.Services
import EthIndexer.Runtime.Startup
