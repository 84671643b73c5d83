import Reckon.Main
import Reckon.Scope.Table
import Reckon.Proofs.Agreement
import Reckon.Proofs.Schedules
import Reckon.Proofs.Parsing
import Reckon.Proofs.Lexing
import Reckon.Proofs.Kept
import Reckon.Proofs.RoundTrip
import Reckon.Proofs.Defined
import Reckon.Proofs.Reached
import Reckon.Proofs.ByteOrder
import Reckon.Proofs.Tables
import Reckon.Proofs.Absent
import Reckon.Proofs.ErrorOutput
import Reckon.Proofs.Isolation
import Reckon.Proofs.Registers
import Reckon.Proofs.ErrorPlace
import Reckon.Proofs.Spacing
import Reckon.Proofs.Readers
import Reckon.Proofs.Slots
import Reckon.Proofs.Forward
import Reckon.Proofs.Activations
import Reckon.Proofs.LineEffect
import Reckon.Proofs.Arithmetic
import Reckon.Proofs.Rendering
import Reckon.Proofs.MachineFrame
import Reckon.Proofs.Dialogue
import Reckon.Proofs.Definitions
