import Schemata.Document.Guarded
import Schemata.Document.Meaning
import Schemata.Main
import Schemata.Session.Basic
import Schemata.Session.Change
import Schemata.Typed
import Schemata.Proofs.Congruence
import Schemata.Proofs.Correspondence
import Schemata.Proofs.Termination
import Schemata.Proofs.Lazy.Growth
import Schemata.Proofs.Lazy.Building
import Schemata.Proofs.Lazy.Simulation
import Schemata.Proofs.Lazy.Writing
import Schemata.Proofs.Transparency
import Schemata.Proofs.Agreement
import Schemata.Proofs.Validity
import Schemata.Proofs.Reading
import Schemata.Proofs.Answers
import Schemata.Proofs.Idempotence
import Schemata.Proofs.RoundTrip
import Schemata.Proofs.Foreign
import Schemata.Proofs.Places
import Schemata.Proofs.Exactness
import Schemata.Proofs.Naming
import Schemata.Proofs.Capture
import Schemata.Proofs.Serialization
import Schemata.Proofs.Lazy.Logging
import Schemata.Proofs.Memoization
import Schemata.Proofs.Compatibility
import Schemata.Proofs.Lazy.Leaves
import Schemata.Proofs.Lazy.Footprint
import Schemata.Proofs.Lazy.Regime
import Schemata.Proofs.Lazy.History
import Schemata.Proofs.Lazy.Ownership
import Schemata.Proofs.Lazy.Tiers
import Schemata.Proofs.Release
import Schemata.Proofs.Confinement
import Schemata.Proofs.Lazy.Legibility
import Schemata.Proofs.Mentions
import Schemata.Proofs.Lookups
import Schemata.Proofs.Lazy.Rendering
import Schemata.Proofs.Lazy.Steadiness
import Schemata.Proofs.Repeatability
import Schemata.Proofs.Completion
import Schemata.Proofs.Reports
import Schemata.Proofs.Positions
import Schemata.Proofs.Pruning
import Schemata.Proofs.Composition
import Schemata.Proofs.Intersections
import Schemata.Proofs.Reordering
import Schemata.Proofs.KeyOrder
import Schemata.Proofs.Magnitudes
import Schemata.Proofs.Numerals
import Schemata.Proofs.Spelling
import Schemata.Proofs.Texts
import Schemata.Proofs.Unambiguity
import Schemata.Proofs.Indentation
import Schemata.Proofs.Identifiers
import Schemata.Proofs.Shadowing
import Schemata.Proofs.Dispatch
import Schemata.Text.NameClasses
import Schemata.Proofs.Drawing
import Schemata.Proofs.Keys
import Schemata.Proofs.Transcription
import Schemata.Proofs.Associativity
