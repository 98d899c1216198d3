import DeskCalculator.Keypad.Hex
import DeskCalculator.Keypad.Split
import DeskCalculator.Main
import DeskCalculator.Proofs.CommandLine.Independence
import DeskCalculator.Proofs.CommandLine.Saving
import DeskCalculator.Proofs.CommandLine.Trimming
import DeskCalculator.Proofs.Complaints
import DeskCalculator.Proofs.Expression.Derivation
import DeskCalculator.Proofs.Hex.Radix
import DeskCalculator.Proofs.History.Listing
import DeskCalculator.Proofs.History.Persistence
import DeskCalculator.Proofs.History.Recency
import DeskCalculator.Proofs.History.Saving
import DeskCalculator.Proofs.Keypad.Attempts
import DeskCalculator.Proofs.Keypad.Correction
import DeskCalculator.Proofs.Keypad.Fields
import DeskCalculator.Proofs.Keypad.LongestNumber
import DeskCalculator.Proofs.Keypad.Recall
import DeskCalculator.Proofs.Literals
import DeskCalculator.Proofs.MaximalMunch
import DeskCalculator.Proofs.Number.Grouping
import DeskCalculator.Proofs.Number.Ordered
import DeskCalculator.Proofs.Places
import DeskCalculator.Proofs.Report.Label
import DeskCalculator.Proofs.Respacing
import DeskCalculator.Proofs.Scientific.Capitals
import DeskCalculator.Proofs.Scientific.Chaining
import DeskCalculator.Proofs.Scientific.Factorial
import DeskCalculator.Proofs.Scientific.Flags
import DeskCalculator.Proofs.Scientific.Misuse
import DeskCalculator.Proofs.Scientific.Normalization
import DeskCalculator.Proofs.Scientific.Powers
import DeskCalculator.Proofs.Scientific.Retyping
import DeskCalculator.Proofs.Session.Evaluation
import DeskCalculator.Proofs.Session.Switching
import DeskCalculator.Proofs.Settings.RoundTrip
import DeskCalculator.Proofs.Split.Accounting
import DeskCalculator.Proofs.Split.Overflow
import DeskCalculator.Proofs.Split.Ungrouped
import DeskCalculator.Proofs.Toml.Document
import DeskCalculator.Proofs.Toml.Range
