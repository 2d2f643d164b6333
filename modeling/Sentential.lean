import Sentential.Text
import Sentential.Number
import Sentential.Json.Printer
import Sentential.Json.Reader
import Sentential.Token
import Sentential.Verdict
import Sentential.Formula.Build
import Sentential.Formula
import Sentential.Table
import Sentential.Settings
import Sentential.Expression
import Sentential.Report
import Sentential.CommandLine.Run
import Sentential.Main
import Sentential.Proofs.Segmentation
import Sentential.Proofs.Analysis
import Sentential.Proofs.Weight
import Sentential.Proofs.Columns
import Sentential.Proofs.Renaming
import Sentential.Proofs.PrintedJson
import Sentential.Proofs.Reports
import Sentential.Proofs.Display
import Sentential.Proofs.Command
import Sentential.Proofs.Configuration
import Sentential.Proofs.FirstFault
import Sentential.Proofs.Additions
import Sentential.Proofs.Counting
import Sentential.Proofs.MaximalMunch
import Sentential.Proofs.ReadingOrder
import Sentential.Proofs.Dependencies
import Sentential.Proofs.Parentheses
import Sentential.Proofs.Limits
import Sentential.Proofs.Evaluation
import Sentential.Proofs.Requests
import Sentential.Proofs.SuppliedSettings
