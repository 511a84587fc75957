import RegisterMachine.Assembly
import RegisterMachine.CommandLine
import RegisterMachine.Machine.Request
import RegisterMachine.Main
import RegisterMachine.RegisterFile.Request
import RegisterMachine.Proofs.Congruence
import RegisterMachine.Proofs.Faults
import RegisterMachine.Proofs.Joining
import RegisterMachine.Proofs.Safety
import RegisterMachine.Proofs.Strictness
import RegisterMachine.Proofs.Trace
import RegisterMachine.Proofs.Truncation
import RegisterMachine.Proofs.Rewording
import RegisterMachine.Proofs.Continuation
import RegisterMachine.Proofs.Normalization
import RegisterMachine.Proofs.Replay
import RegisterMachine.Proofs.Arguments
import RegisterMachine.Proofs.Reports
import RegisterMachine.Proofs.Omission
import RegisterMachine.Proofs.Verbosity
import RegisterMachine.Proofs.Leftover
import RegisterMachine.Proofs.Checking
import RegisterMachine.Proofs.Operations
import RegisterMachine.Proofs.Logging
import RegisterMachine.Proofs.Growth
import RegisterMachine.Proofs.Snapshots
import RegisterMachine.Proofs.Rejection
import RegisterMachine.Proofs.BoundedMap
import RegisterMachine.Proofs.Listings
import RegisterMachine.Proofs.Conversion
