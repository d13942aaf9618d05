import Epica.Lib.SlotMap
import Epica.Lib.Reach
import Epica.Lib.DiGraph
import Epica.Lib.HashOrder
import Epica.Lib.Run
import Epica.Core.Belief
import Epica.Core.Embedding
import Epica.Core.Projection
import Epica.Core.Graphs
import Epica.Core.Quad
import Epica.Core.Store
import Epica.Core.Revision
import Epica.Lib.Visit
import Epica.Lib.Sweep
import Epica.Core.System1
import Epica.Core.Checkpoint
import Epica.Core.Runs
import Epica.Core.RevisionLaws
import Epica.Core.Bounds
import Epica.Core.Versions
import Epica.Core.Extensionality
import Epica.Core.Idempotence
import Epica.Lib.Patch
import Epica.Core.DiffLaws
import Epica.Core.Propagation
import Epica.Core.History
import Epica.Core.Fixpoint
import Epica.Lib.TryFold
import Epica.Lib.Outcomes
import Epica.Lib.Batch
import Epica.Lib.HashTree
import Epica.Lib.HashPath
import Epica.Lib.HashChain
import Epica.Lib.Tally
import Epica.Contracts.Contract
import Epica.Contracts.Config
import Epica.Contracts.Forget
import Epica.Contracts.Ledger
import Epica.Contracts.LedgerLaws
import Epica.Evidence.Receipt
import Epica.Evidence.Verifier
import Epica.Evidence.Authenticity
import Epica.Evidence.Cli
import Epica.Evidence.Inclusion
import Epica.Runtime.Engine
import Epica.Runtime.Update
import Epica.Runtime.Attached
import Epica.Lib.KeyedIndex
import Epica.Runtime.KeyIndex
import Epica.Runtime.Errors
import Epica.Runtime.Invariants
import Epica.Runtime.Retraction
import Epica.Runtime.Audit
import Epica.Runtime.Retrieval
import Epica.Runtime.Sovereignty
import Epica.Runtime.Interleaving
import Epica.Runtime.Preconditions
import Epica.Runtime.Governance
import Epica.Runtime.Reflection
import Epica.Runtime.Indexing
import Epica.Runtime.IndexFreshness
import Epica.Runtime.Freshness
import Epica.Runtime.Staleness
import Epica.Runtime.Confidences
import Epica.Runtime.Trajectory
import Epica.Mcp.Handlers
import Epica.Mcp.Budget
import Epica.Mcp.Keys
import Epica.Mcp.Serial
import Epica.Mcp.Assembly
import Epica.Openai.Embeddings
import Epica.Openai.Queue
import Epica.Lib.Expiry
import Epica.Memory.Neo4j
import Epica.ActiveInference.FreeEnergy
import Epica.ActiveInference.Monitor
import Epica.Core.ColdCache
import Epica.Core.Counterfactual
import Epica.Core.Viz
import Epica.Lib.Best
import Epica.Lib.Meter
import Epica.Macros.BeliefState
import Epica.Runtime.Approval
import Epica.Runtime.Centrality
import Epica.Runtime.TokenBucket
import Epica.Runtime.TopK
import Epica.Core.Uninferred
import Epica.Lib.Base64
import Epica.Lib.Text
import Epica.Macros.Duration
import Epica.Mcp.Jwk
import Epica.Python.BeliefQuad
import Epica.Anthropic.Client
import Epica.Benchmarks.Harness
import Epica.Core.Independence
import Epica.Lib.Service
import Epica.Mcp.Gateway
import Epica.Mcp.Tasks
import Epica.Openai.Client
import Epica.System2.Swap
import Epica.Macros.Contract
import Epica.Core.Settle
import Epica.Python.BeliefRuntime
import Epica.Python.Contract
