import Emerald.IncreasingHeapAllocator.Proofs.BestFit
import Emerald.IncreasingHeapAllocator.Proofs.Coalescing
import Emerald.MemoryManagement.Proofs.PhysicalAliasing
import Emerald.MemoryManagement.Proofs.PageStatistics
import Emerald.MemoryManagement.Proofs.BootMemory
import Emerald.Process.Proofs.Descriptors
import Emerald.Process.Proofs.Fairness
import Emerald.MemoryManagement.Proofs.KernelSharing
import Emerald.Devices.Proofs.PipeOrder
import Emerald.Sync.Proofs.GuardCount
import Emerald.Process.Proofs.ExitDelivery
import Emerald.Devices.Proofs.IdeTransfers
import Emerald.Process.Proofs.GraphicsCalls
import Emerald.Graphics.Proofs.InnerBlit
import Emerald.Process.Proofs.PidArguments
import Emerald.Process.Proofs.FailedReads
import Emerald.Process.Proofs.SpawnFailure
import Emerald.Process.Proofs.ArgumentPassing
import Emerald.Process.Proofs.ResultCodec
import Emerald.Process.Proofs.HeapGrowth
import Emerald.Fs.Fat.Proofs.DirectoryScan
import Emerald.Fs.Fat.Proofs.LongNames
import Emerald.Fs.Fat.Proofs.TypeDetection
import Emerald.Fs.Fat.Proofs.FreeClusters
import Emerald.Fs.Fat.Proofs.FailedFlushes
import Emerald.Fs.Fat.Proofs.LineReads
import Emerald.Executable.Proofs.LoadFailure
import Emerald.Sync.Proofs.OnceLock
import Emerald.Devices.Proofs.TimerAccuracy
import Emerald.Io.Proofs.ConsoleInput
import Emerald.Fs.Fat.Proofs.ShortNames
import Emerald.Acpi.EisaId
