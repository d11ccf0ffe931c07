import PizzaChain.Foundation.Bytes
import PizzaChain.Foundation.Chunks
import PizzaChain.Foundation.Lists
import PizzaChain.Foundation.Unfolding
import PizzaChain.Foundation.Positions
import PizzaChain.Foundation.LevelOrder
import PizzaChain.Foundation.TreeWalk
import PizzaChain.Foundation.Worklist
import PizzaChain.Foundation.Substitution
import PizzaChain.Foundation.Double
import PizzaChain.Foundation.Ledger
import PizzaChain.Foundation.Registry
import PizzaChain.Foundation.KeyedStore
import PizzaChain.Semantics.Transitions
import PizzaChain.Semantics.Program
import PizzaChain.Semantics.Pool
import PizzaChain.Swarm.SwarmHash
import PizzaChain.Swarm.PyramidHash
import PizzaChain.Swarm.Commitment
import PizzaChain.Swarm.Splitting
import PizzaChain.Assets.Json
import PizzaChain.Assets.JsonText
import PizzaChain.Assets.Asset
import PizzaChain.Assets.CreateAssetTree
import PizzaChain.Assets.AssetTree
import PizzaChain.Assets.RootHash
import PizzaChain.Assets.BreadthFirst
import PizzaChain.Assets.MalformedDescription
import PizzaChain.Assets.AssetStore
import PizzaChain.Assets.GetAssetTree
import PizzaChain.Assets.LinkedStore
import PizzaChain.Assets.TraverseTree
import PizzaChain.Assets.GetParent
import PizzaChain.Assets.FailedLookup
import PizzaChain.Assets.ChangeAsset
import PizzaChain.Assets.ParentChains
import PizzaChain.Assets.SubstitutedTree
import PizzaChain.Assets.ChangeExact
import PizzaChain.Semantics.RelyGuarantee
import PizzaChain.Semantics.Alone
import PizzaChain.Semantics.Sequence
import PizzaChain.Assets.AssetService
import PizzaChain.Chain.Tokens
import PizzaChain.Chain.TokenCalls
import PizzaChain.Chain.Procurement
import PizzaChain.Chain.ProcurementCalls
import PizzaChain.Api.World
import PizzaChain.Api.Effects
import PizzaChain.Api.Clients
import PizzaChain.Api.Controller
import PizzaChain.Api.TransferIsolation
import PizzaChain.Api.Routes
import PizzaChain.Api.PaymentTotals
import PizzaChain.Api.PaymentAlone
import PizzaChain.Api.PaymentReceived
import PizzaChain.Api.Delivery
import PizzaChain.Api.ConcurrentPayments
import PizzaChain.Api.PaymentSteps
import PizzaChain.Api.PaymentAtomicity
import PizzaChain.Api.Ordering
import PizzaChain.Api.Listing
import PizzaChain.Api.Invoicing
import PizzaChain.Api.InvoiceLinks
import PizzaChain.Api.TokenMaking
import PizzaChain.Api.TokenMetadata
import PizzaChain.Api.RepeatedDelivery
import PizzaChain.Api.ConcurrentTokens
import PizzaChain.Api.Lookups
import PizzaChain.Semantics.Tickets
import PizzaChain.Api.IssuedTerms
import PizzaChain.Api.TableIntegrity
import PizzaChain.Semantics.Refinement
import PizzaChain.Api.AssetBackend
import PizzaChain.Semantics.Courses
import PizzaChain.Api.Reads
import PizzaChain.Semantics.Agreement
import PizzaChain.Api.Snapshots
import PizzaChain.Semantics.Signatures
import PizzaChain.Api.ConcurrentOrders
import PizzaChain.Semantics.SharedVariables
import PizzaChain.Api.Bystanders
import PizzaChain.Api.SupplyChain
