import VisitGraph.FileTree
import VisitGraph.Main
import VisitGraph.Numeric.Numeral
import VisitGraph.Proofs.Itinerary.Collapse
import VisitGraph.Proofs.Layout.Ownership
import VisitGraph.Proofs.Locator.Memory
import VisitGraph.Proofs.Itinerary.Outline
import VisitGraph.Proofs.Locator.Session
import VisitGraph.Proofs.Roster.Tally
import VisitGraph.Proofs.Transition.Successors
import VisitGraph.Proofs.Transition.Walk
import VisitGraph.Proofs.Layout.Loading
import VisitGraph.Proofs.Layout.Allocation
import VisitGraph.Proofs.Analysis.Parts
import VisitGraph.Proofs.Transition.Flow
import VisitGraph.Proofs.Listing.Reading
import VisitGraph.Proofs.Text.Hexadecimal
import VisitGraph.Proofs.Listing.RoundTrip
import VisitGraph.Proofs.Transition.Links
import VisitGraph.Proofs.Analysis.Order
import VisitGraph.Proofs.Diagram.WellFormed
import VisitGraph.Proofs.Diagram.Reachability
import VisitGraph.Proofs.Numeric.Rounding
import VisitGraph.Proofs.Numeric.Rank
import VisitGraph.Proofs.Numeric.Whole
import VisitGraph.Proofs.Statistics.Spread
import VisitGraph.Proofs.Statistics.Counting
import VisitGraph.Proofs.Trace.Reading
import VisitGraph.Proofs.Analysis.Rejection
import VisitGraph.Proofs.Itinerary.Pieces
import VisitGraph.Proofs.Analysis.Interior
import VisitGraph.Proofs.Analysis.Runs
import VisitGraph.Proofs.Analysis.Chunks
import VisitGraph.Proofs.Itinerary.Pattern
import VisitGraph.Proofs.Roster.Renaming
import VisitGraph.Proofs.Transition.Renaming
import VisitGraph.Proofs.Statistics.Renaming
import VisitGraph.Proofs.Diagram.Renaming
import VisitGraph.Proofs.Analysis.Noninterference
import VisitGraph.Proofs.Analysis.Reversal
import VisitGraph.Proofs.Analysis.Outliers
import VisitGraph.Proofs.Concatenation
import VisitGraph.Proofs.Text.Spelling
import VisitGraph.Proofs.Trace.Grammar
import VisitGraph.Proofs.Text.Words
import VisitGraph.Proofs.Transition.Emphasis
import VisitGraph.Proofs.Transition.Candidates
import VisitGraph.Proofs.Printout.Report
import VisitGraph.Proofs.Analysis.Legible
import VisitGraph.Proofs.Diagram.Statements
import VisitGraph.Proofs.Diagram.Drawing
import VisitGraph.Proofs.FileTree.Places
import VisitGraph.Proofs.Command.Inputs
import VisitGraph.Proofs.Command.Accounts
import VisitGraph.Proofs.Transition.Passages
import VisitGraph.Proofs.Numeric.Nearest
import VisitGraph.Proofs.Numeric.Share
import VisitGraph.Proofs.Transition.Likelihood
import VisitGraph.Proofs.Numeric.Summation
import VisitGraph.Proofs.Transition.Normalised
import VisitGraph.Proofs.Band.Rule
import VisitGraph.Proofs.Statistics.Variance
import VisitGraph.Proofs.Numeric.Order
import VisitGraph.Proofs.Numeric.Signed
import VisitGraph.Proofs.Statistics.Reordering
import VisitGraph.Proofs.Band.Thresholds
import VisitGraph.Proofs.Band.Grading
import VisitGraph.Proofs.Numeric.Accuracy
import VisitGraph.Proofs.Statistics.Underflow
import VisitGraph.Proofs.Numeric.Root
import VisitGraph.Proofs.Band.Reach
import VisitGraph.Proofs.Statistics.Chebyshev
import VisitGraph.Proofs.Text.Backtracking
import VisitGraph.Proofs.Listing.Shape
import VisitGraph.Proofs.Newlines
import VisitGraph.Proofs.Layout.Abutting
import VisitGraph.Proofs.Diagram.Ends
import VisitGraph.Proofs.Itinerary.Repeats
import VisitGraph.Proofs.Layout.Numbering
import VisitGraph.Proofs.Layout.Apart
import VisitGraph.Proofs.Analysis.Relisting
import VisitGraph.Proofs.Numeric.NearestInteger
import VisitGraph.Proofs.Numeric.Digits
import VisitGraph.Proofs.Numeric.Hundredths
import VisitGraph.Proofs.Numeric.Interval
import VisitGraph.Proofs.Numeric.Overflow
import VisitGraph.Proofs.Numeric.Shortest
import VisitGraph.Proofs.Numeric.Numeral
import VisitGraph.Proofs.Numeric.Reading
import VisitGraph.Proofs.Numeric.Faithful
