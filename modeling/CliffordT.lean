import CliffordT.Main
import CliffordT.Matrix.Text
import CliffordT.Proofs.DeepSearch
import CliffordT.Proofs.FoldMeaning
import CliffordT.Sequence.Index64
import CliffordT.Proofs.BufferHistory
import CliffordT.Proofs.NormalForm
import CliffordT.Proofs.Runs
import CliffordT.Proofs.ExactAngle
import CliffordT.Proofs.OwnMatrix
import CliffordT.Proofs.ExactVerification
import CliffordT.Proofs.Margin
import CliffordT.Proofs.Quantization
import CliffordT.Proofs.RaisedDepth
import CliffordT.Proofs.Cancellation
import CliffordT.Proofs.DoubleRange
import CliffordT.Proofs.Acceptance
import CliffordT.Proofs.Reload
import CliffordT.Proofs.SavedRun
import CliffordT.Proofs.UnwatchedPasses
import CliffordT.Proofs.InterruptedPasses
import CliffordT.Proofs.RunEnds
import CliffordT.Proofs.QuietRuns
import CliffordT.Proofs.Precedence
import CliffordT.Proofs.ResumedPass
import CliffordT.Proofs.CheckedRun
import CliffordT.Proofs.StrictCommands
import CliffordT.Proofs.ShortestWords
import CliffordT.Proofs.SlotWrites
import CliffordT.Proofs.LoadedRecords
import CliffordT.Proofs.VerifiedSlots
import CliffordT.Proofs.MachineNumbering
import CliffordT.Proofs.UntouchedBytes
import CliffordT.Proofs.FixedWords
