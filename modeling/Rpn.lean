import Rpn.Calculator.Command
import Rpn.CommandLine.Run
import Rpn.Evaluation.Call
import Rpn.Evaluation.Descent
import Rpn.Evaluation.Loop
import Rpn.Evaluation.Machine
import Rpn.Evaluation.Weight
import Rpn.Expression
import Rpn.Main
import Rpn.Number.Exact
import Rpn.Number.Spelling
import Rpn.Pattern.Acceptance
import Rpn.Proofs.Attribution
import Rpn.Proofs.Conversion
import Rpn.Proofs.Descent
import Rpn.Proofs.Division
import Rpn.Proofs.Effects
import Rpn.Proofs.Endings
import Rpn.Proofs.Entering
import Rpn.Proofs.Exact
import Rpn.Proofs.FewestDigits
import Rpn.Proofs.FreeText
import Rpn.Proofs.Grammar
import Rpn.Proofs.Grouping
import Rpn.Proofs.Journal
import Rpn.Proofs.KeptBits
import Rpn.Proofs.Loading
import Rpn.Proofs.Machine
import Rpn.Proofs.NameClash
import Rpn.Proofs.NumberText
import Rpn.Proofs.Numeral
import Rpn.Proofs.Observing
import Rpn.Proofs.Parity
import Rpn.Proofs.Pending
import Rpn.Proofs.Power
import Rpn.Proofs.Quotient
import Rpn.Proofs.Reach
import Rpn.Proofs.Reading
import Rpn.Proofs.Recognition
import Rpn.Proofs.Registration
import Rpn.Proofs.Reload
import Rpn.Proofs.Replay
import Rpn.Proofs.Rounding
import Rpn.Proofs.Selection
import Rpn.Proofs.Session
import Rpn.Proofs.Shortest
import Rpn.Proofs.Splitting
import Rpn.Proofs.Strictness
import Rpn.Proofs.Sum
import Rpn.Proofs.Totality
import Rpn.Proofs.Unpacked
import Rpn.Proofs.VerboseOption
import Rpn.Proofs.Weight
import Rpn.Proofs.WholeNumber
import Rpn.Proofs.Written
