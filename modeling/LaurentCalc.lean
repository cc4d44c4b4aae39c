import LaurentCalc.Cursor.Call
import LaurentCalc.Expr.Flat
import LaurentCalc.Installation
import LaurentCalc.Main
import LaurentCalc.Printing
import LaurentCalc.Reach
import LaurentCalc.Rule
import LaurentCalc.Proofs.Attempt
import LaurentCalc.Proofs.Interpretation
import LaurentCalc.Proofs.RationalValue
import LaurentCalc.Proofs.Laurent
import LaurentCalc.Proofs.Grammar
import LaurentCalc.Proofs.Names
import LaurentCalc.Proofs.Scanning
import LaurentCalc.Proofs.Written
import LaurentCalc.Proofs.CanonicalMeaning
import LaurentCalc.Proofs.ConstantEvaluation
import LaurentCalc.Proofs.FixedPoint
import LaurentCalc.Proofs.Polynomial
import LaurentCalc.Proofs.Collection
import LaurentCalc.Proofs.Faults
import LaurentCalc.Proofs.Obstacles
import LaurentCalc.Proofs.Reach
import LaurentCalc.Proofs.Univariate
import LaurentCalc.Proofs.UnknownCharacters
import LaurentCalc.Proofs.ErrorLines
import LaurentCalc.Proofs.Printing
import LaurentCalc.Proofs.Lines
import LaurentCalc.Proofs.ReducedOperands
import LaurentCalc.Proofs.LoadedSettings
import LaurentCalc.Proofs.Truncation
import LaurentCalc.Proofs.EmbeddedTexts
import LaurentCalc.Proofs.Quotients
import LaurentCalc.Proofs.Exponents
import LaurentCalc.Proofs.ZeroPowers
import LaurentCalc.Proofs.Denominators
import LaurentCalc.Proofs.EqualOperands
import LaurentCalc.Proofs.TermFactors
import LaurentCalc.Proofs.RepeatedProducts
import LaurentCalc.Proofs.FaultOrigins
import LaurentCalc.Proofs.Monomials
import LaurentCalc.Proofs.Slices
import LaurentCalc.Proofs.OperandOrder
import LaurentCalc.Proofs.Clipboards
import LaurentCalc.Proofs.Utf8
import LaurentCalc.Proofs.JsonTokens
import LaurentCalc.Proofs.JsonValues
import LaurentCalc.Proofs.SavedSettings
import LaurentCalc.Proofs.Calls
import LaurentCalc.Proofs.Collecting
import LaurentCalc.Proofs.Renaming
