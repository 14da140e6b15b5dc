import Letterline.Main
import Letterline.Proofs.ExactScope
import Letterline.Proofs.Grammar
import Letterline.Proofs.Reading
import Letterline.Proofs.UndefinedVariable
import Letterline.Proofs.Token
import Letterline.Proofs.ParserSound
import Letterline.Proofs.Readability
import Letterline.Proofs.Escape
import Letterline.Proofs.Numeral
import Letterline.Proofs.ParserComplete
import Letterline.Proofs.WellFormed
import Letterline.Proofs.Image
import Letterline.Proofs.History
import Letterline.Proofs.Confinement
import Letterline.Proofs.ForLoop
import Letterline.Proofs.SessionInvariant
import Letterline.Proofs.DeadCode
import Letterline.Proofs.Outcome
import Letterline.Proofs.Relocation
import Letterline.Proofs.Concatenation
import Letterline.Proofs.Tiling
import Letterline.Proofs.ProgramJson
import Letterline.Proofs.Isolation
import Letterline.Proofs.Causality
import Letterline.Proofs.Renaming
import Letterline.Proofs.StringLiteral
import Letterline.Proofs.CompoundAssignment
import Letterline.Proofs.Truncation
import Letterline.Proofs.IntegerArithmetic
import Letterline.Proofs.Rejection
import Letterline.Proofs.ConditionValues
import Letterline.Proofs.UnknownOperand
import Letterline.Proofs.ResultKind
import Letterline.Proofs.Atomicity
import Letterline.Proofs.CountedLoop
import Letterline.Proofs.PrintedText
import Letterline.Proofs.Comparison
import Letterline.Proofs.FirstLine
import Letterline.Proofs.CursorOperation
import Letterline.Proofs.Recursion
