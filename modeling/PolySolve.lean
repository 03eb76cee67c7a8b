import PolySolve.Main
import PolySolve.Service
import PolySolve.Proofs.Equation.Verdict
import PolySolve.Proofs.Solution.Overflow
import PolySolve.Proofs.Binary64.Order
import PolySolve.Proofs.Solution.Cases
import PolySolve.Proofs.Solution.Operations
import PolySolve.Proofs.Decimal.Shortest
import PolySolve.Proofs.Decimal.General
import PolySolve.Proofs.Equation.FormReading
import PolySolve.Proofs.Decimal.Reading
import PolySolve.Proofs.Solution.Coherence
import PolySolve.Proofs.Solution.Identity
import PolySolve.Proofs.Binary64.Error
import PolySolve.Proofs.Binary64.Whole
import PolySolve.Proofs.Binary64.Bounds
import PolySolve.Proofs.Solution.Residual
import PolySolve.Proofs.Solution.Whole
import PolySolve.Proofs.Solution.WholeRoots
import PolySolve.Proofs.Solution.Swapped
import PolySolve.Proofs.Text.Utf8
import PolySolve.Proofs.Json.Plain
import PolySolve.Proofs.Json.RoundTrip
import PolySolve.Proofs.Json.Scanned
import PolySolve.Proofs.Json.Surrogates
import PolySolve.Proofs.Store.File
import PolySolve.Proofs.Store.Uses
import PolySolve.Proofs.Store.Readers
import PolySolve.Proofs.Store.Failures
import PolySolve.Proofs.Store.Rounds
import PolySolve.Proofs.CommandLine.LeadingDash
import PolySolve.Proofs.Service.Agreement
import PolySolve.Proofs.Binary64.Monotone
import PolySolve.Proofs.Binary64.Underflow
import PolySolve.Proofs.Polynomial.Collecting
import PolySolve.Proofs.Polynomial.Evaluation
import PolySolve.Proofs.Solution.ConjugateRoots
import PolySolve.Proofs.Plot.Samples
import PolySolve.Proofs.Plot.RootRange
import PolySolve.Proofs.Equation.Signs
import PolySolve.Proofs.Decimal.FewestDigits
import PolySolve.Proofs.Decimal.Plain
import PolySolve.Proofs.Polynomial.FormPieces
import PolySolve.Proofs.Decimal.Fixed
import PolySolve.Proofs.Solution.FixedTexts
