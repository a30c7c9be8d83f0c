import Sley.Lib.BigEndian
import Sley.Lib.HostInt
import Sley.Lib.Leb128
import Sley.Lib.Wire
import Sley.Mutate.Apply
import Sley.Root.StateRootCodec
import Sley.Txn.Head
import Sley.Vm.ImageCodec
import Sley.Lib.Operation
import Sley.Lib.OrderedMap
import Sley.Policy.Capability
import Sley.Policy.Spending
import Sley.Policy.CapabilityAgrees
import Sley.Protocol.Method
import Sley.Protocol.RequestRegistry
import Sley.Protocol.Session
import Sley.Protocol.Stream
import Sley.Protocol.FrameDirect
import Sley.Root.UvarReader
import Sley.Lib.DepthFirst
import Sley.Repo.AncestryWalk
import Sley.Lib.BinarySearch
import Sley.Protocol.Frame
import Sley.Protocol.Negotiation
import Sley.Repo.BranchRecord
import Sley.Txn.Journal
import Sley.Txn.Clone
import Sley.Txn.StageFiles
import Sley.Lib.Worklist
import Sley.Policy.AffectedClosure
import Sley.Repo.Ancestry
import Sley.Repo.GcFailures
import Sley.Repo.BranchHistory
import Sley.Check.Graphs
import Sley.Lib.Relational
import Sley.Lib.Saturating
import Sley.Vm.Agree
import Sley.Vm.MoveOnLastUse
import Sley.Vm.Termination
import Sley.Vm.Budgets
import Sley.Mutate.ConstPlain
import Sley.Root.RootBinding
import Sley.Scb1.Schema
import Sley.Vm.OwnedAgrees
import Sley.Check.ConstOrder
import Sley.Check.Expansion
import Sley.Lib.Failures
import Sley.Lib.TaggedFields
import Sley.Mutate.ApplyFailures
import Sley.Mutate.EncodeLimits
import Sley.Repo.Compose
import Sley.Vm.FloatEquality
import Sley.Lib.SymmetricDifference
import Sley.Query.CompleteRoot
import Sley.Repo.Compare
import Sley.Repo.CompareExact
import Sley.Repo.CompareExchange
import Sley.Check.AllowedScopes
import Sley.Check.NameIndependence
import Sley.Check.Constants
import Sley.Mutate.ConstNested
import Sley.Vm.InputAdmission
import Sley.Vm.Integers
import Sley.Vm.IntegerTiers
import Sley.Vm.Maps
import Sley.Vm.LowerCallees
import Sley.Vm.MapRuns
import Sley.Lib.Association
import Sley.Query.TransitiveImpact
import Sley.Lib.Forest
import Sley.Lib.TextSlice
import Sley.Query.RootShape
import Sley.Vm.Text
import Sley.Lib.StackWalk
