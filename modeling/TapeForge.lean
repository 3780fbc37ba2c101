import TapeForge.Main
import TapeForge.Proofs.ArgumentsKept
import TapeForge.Proofs.Branch
import TapeForge.Proofs.CheckedMode
import TapeForge.Proofs.Compiling
import TapeForge.Proofs.DualSemantics
import TapeForge.Proofs.EqualityTest
import TapeForge.Proofs.FlagGroups
import TapeForge.Proofs.InputHistory
import TapeForge.Proofs.Leaves
import TapeForge.Proofs.Locality
import TapeForge.Proofs.PackedFaults
import TapeForge.Proofs.PackedJumps
import TapeForge.Proofs.PackedRefines
import TapeForge.Proofs.PackedRoom
import TapeForge.Proofs.Provenance.Program
import TapeForge.Proofs.Reachable
import TapeForge.Proofs.RegisterOrder
import TapeForge.Proofs.Registers
import TapeForge.Proofs.RenderedRuns
import TapeForge.Proofs.RestoredState
import TapeForge.Proofs.Rollback
import TapeForge.Proofs.Stack
import TapeForge.Proofs.StepLimit
import TapeForge.Proofs.UsageWalks
