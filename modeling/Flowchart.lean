import Flowchart.Change
import Flowchart.CommandLine
import Flowchart.CommandLine.Arguments
import Flowchart.CommandLine.Folder
import Flowchart.CommandLine.Options
import Flowchart.CommandLine.Surroundings
import Flowchart.Debounce
import Flowchart.Diagram
import Flowchart.Direction
import Flowchart.Edge
import Flowchart.Edge.Id
import Flowchart.Edit
import Flowchart.Editor
import Flowchart.Emitter
import Flowchart.Error
import Flowchart.Geometry
import Flowchart.Graph
import Flowchart.History
import Flowchart.Keyed
import Flowchart.Main
import Flowchart.Node
import Flowchart.Note
import Flowchart.Number
import Flowchart.Number.Binary
import Flowchart.Number.Shortest
import Flowchart.Operator
import Flowchart.Proofs.AddedEdges
import Flowchart.Proofs.Adjoining
import Flowchart.Proofs.Assembling
import Flowchart.Proofs.Assigning
import Flowchart.Proofs.Atomicity
import Flowchart.Proofs.Attributes
import Flowchart.Proofs.Batching
import Flowchart.Proofs.Blocks
import Flowchart.Proofs.Bodies
import Flowchart.Proofs.Bracketing
import Flowchart.Proofs.Calls
import Flowchart.Proofs.Cascade
import Flowchart.Proofs.Chaining
import Flowchart.Proofs.ChangeLog
import Flowchart.Proofs.Characters
import Flowchart.Proofs.Clicks
import Flowchart.Proofs.Climbing
import Flowchart.Proofs.Codes
import Flowchart.Proofs.Commands
import Flowchart.Proofs.Declarations
import Flowchart.Proofs.DistinctEdges
import Flowchart.Proofs.Drafts
import Flowchart.Proofs.Drawings
import Flowchart.Proofs.EdgeDress
import Flowchart.Proofs.EdgeId
import Flowchart.Proofs.EditorIntegrity
import Flowchart.Proofs.Edits
import Flowchart.Proofs.Enclosure
import Flowchart.Proofs.Entries
import Flowchart.Proofs.FailedCalls
import Flowchart.Proofs.Fans
import Flowchart.Proofs.FixedPoint
import Flowchart.Proofs.Forest
import Flowchart.Proofs.Guards
import Flowchart.Proofs.Headers
import Flowchart.Proofs.InnerLabels
import Flowchart.Proofs.Integrity
import Flowchart.Proofs.Keyed
import Flowchart.Proofs.Legible
import Flowchart.Proofs.Lifting
import Flowchart.Proofs.Lines
import Flowchart.Proofs.Links
import Flowchart.Proofs.Listings
import Flowchart.Proofs.Lossless
import Flowchart.Proofs.Lowercase
import Flowchart.Proofs.Meaningful
import Flowchart.Proofs.Meeting
import Flowchart.Proofs.Membership
import Flowchart.Proofs.Moments
import Flowchart.Proofs.Moves
import Flowchart.Proofs.NodeProperties
import Flowchart.Proofs.OneLine
import Flowchart.Proofs.Openings
import Flowchart.Proofs.Operators
import Flowchart.Proofs.Outcome
import Flowchart.Proofs.Ordering
import Flowchart.Proofs.Output
import Flowchart.Proofs.Parts
import Flowchart.Proofs.PlacesAgree
import Flowchart.Proofs.PlainData
import Flowchart.Proofs.Positions
import Flowchart.Proofs.Propertied
import Flowchart.Proofs.Queries
import Flowchart.Proofs.Quiet
import Flowchart.Proofs.Quoting
import Flowchart.Proofs.ReadingIntegrity
import Flowchart.Proofs.ReadingSteps
import Flowchart.Proofs.Recognition
import Flowchart.Proofs.Recording
import Flowchart.Proofs.Redrawing
import Flowchart.Proofs.Removals
import Flowchart.Proofs.Replay
import Flowchart.Proofs.Requests
import Flowchart.Proofs.Rereading
import Flowchart.Proofs.Results
import Flowchart.Proofs.RoundTrip
import Flowchart.Proofs.Runs
import Flowchart.Proofs.Scanning
import Flowchart.Proofs.Setters
import Flowchart.Proofs.Settling
import Flowchart.Proofs.Skipping
import Flowchart.Proofs.Splicing
import Flowchart.Proofs.Splitting
import Flowchart.Proofs.StableIds
import Flowchart.Proofs.Stacks
import Flowchart.Proofs.Statements
import Flowchart.Proofs.Stranding
import Flowchart.Proofs.SturdyEdits
import Flowchart.Proofs.Styling
import Flowchart.Proofs.Telling
import Flowchart.Proofs.Texts
import Flowchart.Proofs.Timeline
import Flowchart.Proofs.Totality
import Flowchart.Proofs.Traits
import Flowchart.Proofs.TypedFields
import Flowchart.Proofs.UndoRedo
import Flowchart.Proofs.Unrolling
import Flowchart.Proofs.Views
import Flowchart.Proofs.Vocabulary
import Flowchart.Proofs.Wording
import Flowchart.Session
import Flowchart.Shape
import Flowchart.Shape.Bracketed
import Flowchart.Source
import Flowchart.Source.Kind
import Flowchart.Source.Link
import Flowchart.Source.Reading
import Flowchart.Source.Statement
import Flowchart.Style
import Flowchart.Subgraph
import Flowchart.Summary
import Flowchart.Text
import Flowchart.Text.Alphanumeric
import Flowchart.Text.Blank
import Flowchart.Text.Digit
import Flowchart.Text.Entity
import Flowchart.Text.Literal
import Flowchart.Text.Lowercase
import Flowchart.Text.Markup
import Flowchart.Text.Printable
import Flowchart.Text.Quoted
import Flowchart.Text.Run
import Flowchart.Value
import Flowchart.Value.Json
import Flowchart.Writing
