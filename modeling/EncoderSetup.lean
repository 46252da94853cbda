import EncoderSetup.Attribute.Block
import EncoderSetup.Attribute.Call
import EncoderSetup.Attribute.Listing
import EncoderSetup.Attribute.Profile
import EncoderSetup.Attribute.Schema
import EncoderSetup.Attribute.Staging
import EncoderSetup.Attribute.Store
import EncoderSetup.Attribute.Value
import EncoderSetup.CommandLine.Arguments
import EncoderSetup.CommandLine.Run
import EncoderSetup.CommandLine.Switch
import EncoderSetup.Diagnostic.Event
import EncoderSetup.Diagnostic.Flags
import EncoderSetup.Diagnostic.Traced
import EncoderSetup.Document
import EncoderSetup.Enumeration
import EncoderSetup.Error
import EncoderSetup.Frame.Alignment
import EncoderSetup.Frame.Constants
import EncoderSetup.Frame.ConstantsDocument
import EncoderSetup.Frame.Format
import EncoderSetup.Frame.Layout
import EncoderSetup.Frame.LayoutDocument
import EncoderSetup.Frame.Naming
import EncoderSetup.Json.Read
import EncoderSetup.Json.Render
import EncoderSetup.Json.Scan
import EncoderSetup.Json.Symbol
import EncoderSetup.Json.Tree
import EncoderSetup.Lifecycle.Config
import EncoderSetup.Lifecycle.Registry
import EncoderSetup.Lifecycle.Stage
import EncoderSetup.Main
import EncoderSetup.Proofs.Attribute.Answers
import EncoderSetup.Proofs.Attribute.DumpLines
import EncoderSetup.Proofs.Attribute.Independence
import EncoderSetup.Proofs.Attribute.Invariant
import EncoderSetup.Proofs.Attribute.Isolation
import EncoderSetup.Proofs.Attribute.Listings
import EncoderSetup.Proofs.Attribute.ProfileFormat
import EncoderSetup.Proofs.Attribute.ProfileRoundTrip
import EncoderSetup.Proofs.Attribute.Reads
import EncoderSetup.Proofs.Attribute.Reservations
import EncoderSetup.Proofs.Attribute.Sessions
import EncoderSetup.Proofs.Attribute.Structures
import EncoderSetup.Proofs.Attribute.Transition
import EncoderSetup.Proofs.Attribute.Updates
import EncoderSetup.Proofs.CommandLine.Showing
import EncoderSetup.Proofs.Diagnostic.Atomic
import EncoderSetup.Proofs.Diagnostic.DebugWord
import EncoderSetup.Proofs.Diagnostic.Given
import EncoderSetup.Proofs.Diagnostic.Outcome
import EncoderSetup.Proofs.Diagnostic.Settled
import EncoderSetup.Proofs.Frame.CompressedRefusal
import EncoderSetup.Proofs.Frame.CompressedSize
import EncoderSetup.Proofs.Frame.Containment
import EncoderSetup.Proofs.Frame.Coverage
import EncoderSetup.Proofs.Frame.Faults
import EncoderSetup.Proofs.Frame.Feedback
import EncoderSetup.Proofs.Frame.Locality
import EncoderSetup.Proofs.Frame.Monotone
import EncoderSetup.Proofs.Frame.PlainSize
import EncoderSetup.Proofs.Frame.Strides
import EncoderSetup.Proofs.Frame.Suggestions
import EncoderSetup.Proofs.Frame.Table
import EncoderSetup.Proofs.Frame.TableDocument
import EncoderSetup.Proofs.Frame.Unreported
import EncoderSetup.Proofs.Frame.WholeRange
import EncoderSetup.Proofs.Frame.Words
import EncoderSetup.Proofs.Json.Decoding
import EncoderSetup.Proofs.Json.Grammar
import EncoderSetup.Proofs.Json.Nesting
import EncoderSetup.Proofs.Json.Numbers
import EncoderSetup.Proofs.Json.Records
import EncoderSetup.Proofs.Json.Rendering
import EncoderSetup.Proofs.Json.Scanning
import EncoderSetup.Proofs.Json.Skipping
import EncoderSetup.Proofs.Json.Strings
import EncoderSetup.Proofs.Json.Typed
import EncoderSetup.Proofs.Lifecycle.Failures
import EncoderSetup.Proofs.Lifecycle.Loading
import EncoderSetup.Proofs.Lifecycle.Operations
import EncoderSetup.Proofs.Lifecycle.Registrations
import EncoderSetup.Proofs.Lifecycle.Validation
import EncoderSetup.Proofs.MappedValues
import EncoderSetup.Proofs.Text.Numerals
import EncoderSetup.SortedMap
import EncoderSetup.Text.Blank
import EncoderSetup.Text.Column
import EncoderSetup.Text.Numeral
import EncoderSetup.Text.Terminal
