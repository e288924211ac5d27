import Stencil.Engine.Run
import Stencil.Proofs.Expression.Condition
import Stencil.Proofs.Template.Reading
import Stencil.Proofs.Approximation
import Stencil.Proofs.Assignment
import Stencil.Proofs.Goal
import Stencil.Proofs.Limits
import Stencil.Proofs.Completion
import Stencil.Proofs.Completion.Expression
import Stencil.Proofs.Completion.Template
import Stencil.Proofs.Completion.Assignment
import Stencil.Proofs.Completion.Failure
import Stencil.Proofs.Diagnosis
import Stencil.Proofs.Assignment.Effect
import Stencil.Proofs.Assignment.Lines
import Stencil.Proofs.Engine.Operation
import Stencil.Proofs.Expression.Forms
import Stencil.Proofs.Engine.Evolution
import Stencil.Proofs.Engine.Branching
import Stencil.Proofs.Value.Arithmetic
import Stencil.Proofs.Engine.Normal
import Stencil.Proofs.Assignment.Listing
import Stencil.Proofs.Engine.Agreement
import Stencil.Proofs.Value.Literal
import Stencil.Proofs.Dependence
import Stencil.Proofs.Engine.Dependence
import Stencil.Proofs.Expression.Connectives
import Stencil.Proofs.Engine.Composition
import Stencil.Proofs.Template.Concatenation
import Stencil.Proofs.Assignment.Joining
import Stencil.Proofs.Text.Padding
import Stencil.Proofs.Assignment.Padding
import Stencil.Proofs.Engine.Padding
import Stencil.Proofs.Template.Padding
import Stencil.Proofs.Engine.Naming
import Stencil.Proofs.Report
import Stencil.Proofs.BlankLines
import Stencil.Proofs.FullEvaluation
import Stencil.Proofs.Text.Utf8Order
import Stencil.Proofs.Value.Comparison
import Stencil.Proofs.Assignment.Integers
import Stencil.Proofs.Engine.Log
import Stencil.Proofs.Engine.History
import Stencil.Proofs.Scanner.Basic
import Stencil.Proofs.Scanner.Discipline
import Stencil.Proofs.Scanner.Notes
import Stencil.Proofs.Scanner.Number
