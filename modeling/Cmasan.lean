import Cmasan.Word
import Cmasan.Lib.Run
import Cmasan.Lib.Linked
import Cmasan.Lib.RefCount
import Cmasan.Tlt
import Cmasan.TltSlots
import Cmasan.TltInsert
import Cmasan.TltTable
import Cmasan.TltRelease
import Cmasan.Config
import Cmasan.ExtendSize
import Cmasan.Quarantine
import Cmasan.Shadow
import Cmasan.QuarantineCounts
import Cmasan.Hooks
import Cmasan.HookRuns
import Cmasan.Allocate
import Cmasan.TrackedRange
import Cmasan.HookEffects
import Cmasan.Lib.Ledger
import Cmasan.World
import Cmasan.QuarantineLedger
import Cmasan.QuarantineFifo
import Cmasan.DoubleFree
import Cmasan.ShadowAgrees
import Cmasan.ShadowRuns
import Cmasan.Clears
import Cmasan.Reports
import Cmasan.Traffic
import Cmasan.Detection
import Cmasan.SizeQueries
import Cmasan.ClearScope
import Cmasan.Realloc
import Cmasan.LockDiscipline
import Cmasan.Requeue
import Cmasan.Lib.Stride
import Cmasan.TltUpdate
import Cmasan.Heap
import Cmasan.Nested
import Cmasan.ShadowFrame
import Cmasan.QuarantinePops
import Cmasan.TltUpdateRange
import Cmasan.Lib.CText
import Cmasan.PcList
import Cmasan.PcScan
import Cmasan.PcInit
import Cmasan.DlOpen
import Cmasan.PcBounds
import Cmasan.Annotation
import Cmasan.CallStack
import Cmasan.SimpleMapRuns
import Cmasan.Lib.PyText
import Cmasan.AddrInfo
import Cmasan.AddrInfoOrder
import Cmasan.Identification
import Cmasan.IdentificationRuns
import Cmasan.Descriptions
import Cmasan.Grouping
import Cmasan.NestedRelease
import Cmasan.ReportRows
import Cmasan.Lib.Comp
import Cmasan.Lib.Ssa
import Cmasan.Instrument
import Cmasan.InstrumentSound
import Cmasan.Lib.SsaWf
import Cmasan.InstrumentWf
import Cmasan.InstrumentModule
import Cmasan.Lib.SsaRuns
import Cmasan.HookProtocol
import Cmasan.Runtime
import Cmasan.InstrumentedCalls
import Cmasan.AccessCheck
import Cmasan.UserPoisoning
import Cmasan.AccessRuns
import Cmasan.CmaList
