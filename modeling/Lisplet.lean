import Lisplet.Main
import Lisplet.Token.Located
import Lisplet.Proofs.Frame
import Lisplet.Proofs.Joining
import Lisplet.Proofs.Continuation
import Lisplet.Proofs.Chunking
import Lisplet.Proofs.NumberTexts
import Lisplet.Proofs.Legibility
import Lisplet.Proofs.SingleForms
import Lisplet.Proofs.RoundTrip
import Lisplet.Proofs.Grammar
import Lisplet.Proofs.Spelling
import Lisplet.Proofs.FirstFlaw
import Lisplet.Proofs.Natives
import Lisplet.Proofs.Congruence
import Lisplet.Proofs.Headroom
import Lisplet.Proofs.Literals
import Lisplet.Proofs.Values
import Lisplet.Proofs.SessionStates
import Lisplet.Proofs.Lossless
import Lisplet.Proofs.Reporting
import Lisplet.Proofs.Failures
import Lisplet.Proofs.Running
import Lisplet.Proofs.FileRuns
import Lisplet.Proofs.Conversation
import Lisplet.Proofs.Renaming
import Lisplet.Proofs.Repetition
import Lisplet.Proofs.ShellStates
import Lisplet.Proofs.Cutting
import Lisplet.Proofs.Leftovers
import Lisplet.Proofs.Ledger
import Lisplet.Proofs.Rounding
import Lisplet.Proofs.Unwritable
import Lisplet.Proofs.Applications
import Lisplet.Proofs.TypedFailures
import Lisplet.Proofs.Diagnoses
import Lisplet.Proofs.Locations
import Lisplet.Proofs.NestingLimits
import Lisplet.Proofs.NearestCodes
import Lisplet.Proofs.TwoRoundings
import Lisplet.Proofs.DecimalNeighbours
import Lisplet.Proofs.DecimalTexts
import Lisplet.Proofs.MultilineStrings
import Lisplet.Proofs.ReadBack
import Lisplet.Proofs.Shortness
import Lisplet.Proofs.ScopeHistories
import Lisplet.Proofs.PostOrder
import Lisplet.Proofs.FittingLimits
import Lisplet.Proofs.Parameters
import Lisplet.Proofs.Carets
import Lisplet.Proofs.Registrations
import Lisplet.Proofs.Descent
