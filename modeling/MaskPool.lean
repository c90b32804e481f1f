import MaskPool.Foundations.Blocks
import MaskPool.Foundations.BlockScan
import MaskPool.Foundations.Runs
import MaskPool.Foundations.Masks
import MaskPool.Foundations.FirstMatch
import MaskPool.Foundations.Traversal
import MaskPool.Foundations.Paging
import MaskPool.Foundations.Cycles
import MaskPool.Foundations.FirstCome
import MaskPool.Foundations.Numerals
import MaskPool.Foundations.Rings
import MaskPool.Foundations.RingMemory
import MaskPool.Foundations.RingStore
import MaskPool.Foundations.RingLoops
import MaskPool.Foundations.RingContents
import MaskPool.Model.Types
import MaskPool.Model.Pool4
import MaskPool.Model.Client
import MaskPool.Model.GetMask
import MaskPool.Model.Iteration
import MaskPool.Model.Harness
import MaskPool.Model.System
import MaskPool.Model.Memory
import MaskPool.Model.Driver
import MaskPool.Pool.Enumeration
import MaskPool.Pool.DomainStart
import MaskPool.Pool.NthMask
import MaskPool.Pool.Strides
import MaskPool.Pool.Membership
import MaskPool.Pool.AddressText
import MaskPool.Clients.Addresses
import MaskPool.Clients.Lookup
import MaskPool.Clients.Capacity
import MaskPool.Assignment.MaskDomains
import MaskPool.Assignment.Serving
import MaskPool.Assignment.Exhaustion
import MaskPool.Assignment.Registration
import MaskPool.Assignment.Isolation
import MaskPool.Assignment.Stickiness
import MaskPool.Clients.Agreement
import MaskPool.Clients.NetworkOrder
import MaskPool.Clients.ByteSkew
import MaskPool.Clients.Coverage
import MaskPool.Clients.Spans
import MaskPool.Clients.History
import MaskPool.Iteration.MaskRotation
import MaskPool.Iteration.MaskCount
import MaskPool.Iteration.ClientRotation
import MaskPool.Iteration.AddressOrder
import MaskPool.Iteration.Samples
import MaskPool.Iteration.Divisors
import MaskPool.Iteration.Turns
import MaskPool.Iteration.Searches
import MaskPool.Pool.HandOut
import MaskPool.Assignment.FirstCome
import MaskPool.Assignment.Places
import MaskPool.Assignment.PoolChanges
import MaskPool.Assignment.Separation
import MaskPool.Assignment.LiveMasks
import MaskPool.Heap.Functions
import MaskPool.Heap.Refinement
import MaskPool.Heap.Lifecycle
import MaskPool.Heap.Driver
import MaskPool.Heap.Service
import MaskPool.Harness.Filling
import MaskPool.Harness.Verdicts
import MaskPool.Heap.Driver
