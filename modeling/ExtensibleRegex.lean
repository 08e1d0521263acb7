import ExtensibleRegex.Session
import ExtensibleRegex.Proofs.Combine.Forms
import ExtensibleRegex.Proofs.Combine.Pieces
import ExtensibleRegex.Proofs.Dialect.Cache
import ExtensibleRegex.Proofs.Dialect.Groups
import ExtensibleRegex.Proofs.Dialect.Registration
import ExtensibleRegex.Proofs.Native.Shape
import ExtensibleRegex.Proofs.Regex.Sticky
import ExtensibleRegex.Proofs.Session.Replay
import ExtensibleRegex.Proofs.Dialect.BareClasses
import ExtensibleRegex.Proofs.Dialect.Comments
import ExtensibleRegex.Proofs.Combine.Joining
import ExtensibleRegex.Proofs.Combine.Literals
import ExtensibleRegex.Proofs.Combine.Alternatives
import ExtensibleRegex.Proofs.Dialect.NativeSyntax
import ExtensibleRegex.Proofs.Native.Paths
import ExtensibleRegex.Proofs.Balanced.Counting
import ExtensibleRegex.Proofs.Balanced.Parts
import ExtensibleRegex.Proofs.Balanced.Absent
import ExtensibleRegex.Proofs.Dialect.Escape
import ExtensibleRegex.Proofs.Property.Negation
import ExtensibleRegex.Proofs.Expansion.Ending
import ExtensibleRegex.Proofs.Edit.Cursor
import ExtensibleRegex.Edit.Held
import ExtensibleRegex.Proofs.Edit.Splicing
import ExtensibleRegex.Proofs.Property.ClassData
import ExtensibleRegex.Proofs.Property.ClassReading
import ExtensibleRegex.Proofs.Property.Complement
import ExtensibleRegex.Proofs.Native.Mentions
import ExtensibleRegex.Proofs.Expansion.Explicit
import ExtensibleRegex.Proofs.Combine.Building
import ExtensibleRegex.Proofs.Combine.ExplicitCapture
import ExtensibleRegex.Proofs.Combine.Calls
import ExtensibleRegex.Proofs.Combine.Outlines
import ExtensibleRegex.Proofs.Combine.Assembling
import ExtensibleRegex.Proofs.Combine.Insertion
import ExtensibleRegex.Proofs.Combine.Anchors
import ExtensibleRegex.Proofs.Combine.BuildGroups
import ExtensibleRegex.Proofs.Regex.Stepping
import ExtensibleRegex.Proofs.Edit.Splitting
import ExtensibleRegex.Proofs.Edit.LiteralSplitting
import ExtensibleRegex.Proofs.Edit.Chaining
import ExtensibleRegex.Proofs.Dialect.Atomicity
import ExtensibleRegex.Proofs.Combine.Anchoring
import ExtensibleRegex.Proofs.Expansion.Collapsing
import ExtensibleRegex.Proofs.Token.Leads
import ExtensibleRegex.Proofs.Session.Gates
import ExtensibleRegex.Proofs.Dialect.Recompiling
import ExtensibleRegex.Proofs.Edit.Templates
import ExtensibleRegex.Proofs.Combine.GroupCounts
import ExtensibleRegex.Proofs.Expansion.Offsets
