import SandboxVm.Main
import SandboxVm.Proofs.ModeIndependence
import SandboxVm.Assembly.Source
import SandboxVm.Proofs.Faults
import SandboxVm.Proofs.NativeMoments
import SandboxVm.Proofs.CallDiscipline
import SandboxVm.Proofs.Checked
import SandboxVm.Proofs.Containment
import SandboxVm.Proofs.Reload
import SandboxVm.Proofs.Instructions
import SandboxVm.Proofs.ControlFlow
import SandboxVm.Proofs.Lifecycle
import SandboxVm.Proofs.StackBound
import SandboxVm.Proofs.Cells
import SandboxVm.Proofs.Codec
import SandboxVm.Proofs.ImageFormat
import SandboxVm.Proofs.ImageRoundTrip
import SandboxVm.Proofs.ManagerCourses
import SandboxVm.Proofs.SystemCalls
import SandboxVm.Proofs.BusyModules
import SandboxVm.Proofs.Restarts
import SandboxVm.Proofs.Diagnostics
import SandboxVm.Proofs.JumpTables
import SandboxVm.Proofs.EntryFrames
import SandboxVm.Proofs.InitialMemory
import SandboxVm.Proofs.BlockCopies
import SandboxVm.Proofs.InstructionOffsets
import SandboxVm.Proofs.HostPointers
import SandboxVm.Proofs.Locality
import SandboxVm.Proofs.SharedServices
import SandboxVm.Proofs.Profiles
import SandboxVm.Proofs.Listings
import SandboxVm.Proofs.LoadsAndStores
