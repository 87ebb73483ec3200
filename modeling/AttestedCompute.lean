import AttestedCompute.Affine.Scan
import AttestedCompute.Ladder.Canonical
import AttestedCompute.Ladder.Overflow
import AttestedCompute.Ladder.Statements
import AttestedCompute.Affine.Certificate
import AttestedCompute.Affine.Associative
import AttestedCompute.Affine.Binding
import AttestedCompute.Arithmetic.ChunkChain
import AttestedCompute.Arithmetic.MobiusSegment
import AttestedCompute.Arithmetic.RealSamples
import AttestedCompute.Campaign.Check
import AttestedCompute.Campaign.Partition
import AttestedCompute.Dirichlet.ScanMonoid
import AttestedCompute.Dirichlet.EventMmr
import AttestedCompute.Goldbach.BucketSieve
import AttestedCompute.Goldbach.PersistentSieve
import AttestedCompute.Goldbach.ShiftedBitset
import AttestedCompute.Hurst.Roots
import AttestedCompute.Hurst.VerifyRun
import AttestedCompute.Lib.Region
import AttestedCompute.PrimeLadder.ProthSearch
import AttestedCompute.Receipt.NatSha256
import AttestedCompute.Receipt.Payload
import AttestedCompute.Tdx.Agreement
import AttestedCompute.Dirichlet.ChunkCombine
import AttestedCompute.Dirichlet.Realizable
import AttestedCompute.Dirichlet.CompactAssoc
import AttestedCompute.Dirichlet.FormulaicCoverage
import AttestedCompute.Platt.Reseal
import AttestedCompute.Platt.Preemption
import AttestedCompute.Finite.Coverage
import AttestedCompute.Finite.FixedLog
import AttestedCompute.CompactV3.FileCanonical
import AttestedCompute.CompactV3.Lanes
import AttestedCompute.SmallQ.Canonical
import AttestedCompute.Sqrt218.Layout
import AttestedCompute.Sqrt218.TwoLimb
import AttestedCompute.Lib.JsonCanonical
import AttestedCompute.Lib.Varint
import AttestedCompute.PrimeLadder.Coverage
import AttestedCompute.PrimeLadder.ParameterRecord
import AttestedCompute.PrimeLadder.PrimeSearch
import AttestedCompute.PrimeLadder.RangeSummary
