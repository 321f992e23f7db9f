import TrialLayout.Arena
import TrialLayout.Arena.Handle
import TrialLayout.Arena.Layout
import TrialLayout.Arena.Node
import TrialLayout.Arena.Read
import TrialLayout.Arena.Shape
import TrialLayout.Build
import TrialLayout.Config
import TrialLayout.Config.Settings
import TrialLayout.Format
import TrialLayout.Layout
import TrialLayout.Layout.Blocks
import TrialLayout.Name
import TrialLayout.Printer
import TrialLayout.Printer.Script
import TrialLayout.Printer.Trial
import TrialLayout.Text.Blank
import TrialLayout.Text.Lines
import TrialLayout.Text.Literal
import TrialLayout.Tree
import TrialLayout.Tree.Layout
import TrialLayout.Tree.Shape
import TrialLayout.Tree.TypeLayout
import TrialLayout.Proofs.Emission
import TrialLayout.Proofs.Advance
import TrialLayout.Proofs.Coherence
import TrialLayout.Proofs.Names
import TrialLayout.Proofs.Tokens
import TrialLayout.Proofs.Literals
import TrialLayout.Proofs.Weaving
import TrialLayout.Proofs.TokenPreservation
import TrialLayout.Proofs.Hanging
import TrialLayout.Proofs.Opening
import TrialLayout.Proofs.Floor
import TrialLayout.Proofs.Offside
import TrialLayout.Proofs.BlockOffside
import TrialLayout.Proofs.DeclOffside
import TrialLayout.Proofs.LimitStability
import TrialLayout.Proofs.LineUniqueness
import TrialLayout.Proofs.Reading
import TrialLayout.Proofs.Representation
import TrialLayout.Proofs.Composition
import TrialLayout.Arena.Render
import TrialLayout.Proofs.Intact
import TrialLayout.Proofs.Position
import TrialLayout.Proofs.OnDemand
import TrialLayout.Build.Call
import TrialLayout.Proofs.Growth
import TrialLayout.Proofs.Soundness
import TrialLayout.Proofs.Building
import TrialLayout.Proofs.Calls
import TrialLayout.Build.Tree
import TrialLayout.Proofs.RoundTrip
import TrialLayout.Proofs.Runs
import TrialLayout.Proofs.Allocation
import TrialLayout.Proofs.Interning
import TrialLayout.Proofs.LiteralReading
import TrialLayout.Proofs.Reach
import TrialLayout.Proofs.OperatorBreaks
import TrialLayout.Proofs.FlatLine
import TrialLayout.Proofs.LineKeeping
import TrialLayout.Proofs.Closing
import TrialLayout.Proofs.Arguments
import TrialLayout.Proofs.Stacking
import TrialLayout.Proofs.LineLimit
import TrialLayout.Proofs.SignatureRows
import TrialLayout.Proofs.Attachment
import TrialLayout.Proofs.Grounding
import TrialLayout.Proofs.LeftFloor
import TrialLayout.Proofs.Measuring
import TrialLayout.Proofs.NormalForm
import TrialLayout.Proofs.Currying
import TrialLayout.Proofs.Restoration
import TrialLayout.Proofs.Pieces
import TrialLayout.Proofs.Handles
