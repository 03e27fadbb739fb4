import ArmProgram.Main
import ArmProgram.Service.Basic
import ArmProgram.Proofs.Run.Moment
import ArmProgram.Proofs.Run.Clearance
import ArmProgram.Proofs.Run.Abort
import ArmProgram.Proofs.Run.Structured
import ArmProgram.Proofs.Controller.Scene
import ArmProgram.Proofs.Run.Refinement
import ArmProgram.Proofs.Controller.SingleRun
import ArmProgram.Proofs.Run.Budget
import ArmProgram.Proofs.Controller.Watch
import ArmProgram.Proofs.Controller.Reach
import ArmProgram.Proofs.Program.Edits
import ArmProgram.Proofs.Run.Extension
import ArmProgram.Proofs.Run.Forks
import ArmProgram.Proofs.Value.Readable
import ArmProgram.Proofs.Controller.Endings
import ArmProgram.Proofs.Decimal.Nearest
import ArmProgram.Proofs.Decimal.Shortest
import ArmProgram.Proofs.Text.Digits
import ArmProgram.Proofs.Json.Numbers
import ArmProgram.Proofs.Json.RoundTrip
import ArmProgram.Proofs.Program.Documents
import ArmProgram.Proofs.Controller.Sole
import ArmProgram.Proofs.Service.Requests
import ArmProgram.Proofs.Service.Rejected
import ArmProgram.Proofs.Service.Running
import ArmProgram.Proofs.Json.Readings
import ArmProgram.Proofs.Program.Writable
import ArmProgram.Proofs.Service.Bodies
import ArmProgram.Proofs.Service.Sessions
import ArmProgram.Proofs.Service.Export
import ArmProgram.Proofs.Block.Liveness
import ArmProgram.Proofs.Run.Awake
import ArmProgram.Proofs.Run.Pruned
import ArmProgram.Proofs.Run.Dispatch
import ArmProgram.Proofs.Run.Deadline
import ArmProgram.Proofs.Run.InTime
import ArmProgram.Proofs.Program.Chains
import ArmProgram.Proofs.Program.Removal
import ArmProgram.Proofs.Controller.Revisions
import ArmProgram.Proofs.Controller.Simulated
import ArmProgram.Proofs.Controller.Callers
import ArmProgram.Proofs.Controller.Results
import ArmProgram.Proofs.Run.Phases
import ArmProgram.Proofs.Run.Lacking
import ArmProgram.Proofs.Controller.Finished
import ArmProgram.Proofs.Service.Trust
import ArmProgram.Proofs.Block.Families
import ArmProgram.Proofs.Run.Path
import ArmProgram.Proofs.Decimal.Product
import ArmProgram.Proofs.Value.Waits
import ArmProgram.Proofs.Value.Leading
