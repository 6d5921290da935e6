import MspmBaremetal.Transition
import MspmBaremetal.Fifo
import MspmBaremetal.MaskedRing
import MspmBaremetal.Ringbuf
import MspmBaremetal.RingbufRuns
import MspmBaremetal.Crash
import MspmBaremetal.TornWrite
import MspmBaremetal.CrashHistory
import MspmBaremetal.Uart
import MspmBaremetal.UartRuns
import MspmBaremetal.LatchedStore
import MspmBaremetal.Regmap
import MspmBaremetal.RegmapRuns
import MspmBaremetal.SnapshotReads
import MspmBaremetal.CommandQueue
import MspmBaremetal.Delivery
import MspmBaremetal.DeliveryRuns
import MspmBaremetal.RegmapCalls
import MspmBaremetal.Eeprom
import MspmBaremetal.ReadLatch
import MspmBaremetal.TargetIsr
import MspmBaremetal.BusPhases
import MspmBaremetal.PublishRuns
import MspmBaremetal.CrashBurst
import MspmBaremetal.RegmapBounds
import MspmBaremetal.StartOnce
import MspmBaremetal.I2cController
import MspmBaremetal.RegisterImage
import MspmBaremetal.ControllerTransfers
import MspmBaremetal.TransferIsolation
import MspmBaremetal.ByteFields
import MspmBaremetal.ImageIdentity
import MspmBaremetal.ElfImage
import MspmBaremetal.ImageLayout
import MspmBaremetal.ImageArtifacts
import MspmBaremetal.ArtifactAgreement
import MspmBaremetal.ProgrammedImage
import MspmBaremetal.ElfFields
import MspmBaremetal.InterpretedBytes
import MspmBaremetal.StampedImage
import MspmBaremetal.CallRuns
import MspmBaremetal.BaudDivisor
import MspmBaremetal.I2cTarget
import MspmBaremetal.I2cTiming
import MspmBaremetal.StampEffect
import MspmBaremetal.LayoutCoverage
import MspmBaremetal.HexText
import MspmBaremetal.HexRecords
import MspmBaremetal.CompletionPolling
import MspmBaremetal.StartRequests
import MspmBaremetal.DropCount
import MspmBaremetal.StatusPage
import MspmBaremetal.StatusPageRuns
import MspmBaremetal.MemoryProgram
import MspmBaremetal.ArchMemory
import MspmBaremetal.PreemptiveCore
import MspmBaremetal.AtomicHelpers
import MspmBaremetal.ThumbCode
import MspmBaremetal.Linker
import MspmBaremetal.Startup
import MspmBaremetal.FaultHandler
import MspmBaremetal.CrashRetention
import MspmBaremetal.PageReads
import MspmBaremetal.BuildInfo
import MspmBaremetal.Diagnostics
import MspmBaremetal.TargetHandler
import MspmBaremetal.TargetHandlerRuns
import MspmBaremetal.RegisterBank
import MspmBaremetal.Clock
import MspmBaremetal.Board
import MspmBaremetal.I2c1
import MspmBaremetal.BringUp
import MspmBaremetal.Blink
import MspmBaremetal.FaultRecordTest
