import LineAtlas.Name.DefaultHelper
import LineAtlas.Name.Mangled
import LineAtlas.Name.ClassName
import LineAtlas.Name.Local
import LineAtlas.Json.Read
import LineAtlas.Json.Write
import LineAtlas.ClassFile.Layout
import LineAtlas.Resolution.Resolve
import LineAtlas.Tree.Placement
import LineAtlas.Report.OfTree
import LineAtlas.Report.Text
import LineAtlas.Log.Options
import LineAtlas.Exchange.Signature
import LineAtlas.Run.Reporter
import LineAtlas.Proofs.Lists
import LineAtlas.Proofs.Except
import LineAtlas.Proofs.Metadata.Writing
import LineAtlas.Proofs.Metadata.Packed
import LineAtlas.Proofs.Metadata.Flags
import LineAtlas.Proofs.Metadata.Types
import LineAtlas.Proofs.Metadata.Members
import LineAtlas.Proofs.Metadata.Documents
import LineAtlas.Proofs.Metadata.Writable
import LineAtlas.Proofs.ClassFile.Reading
import LineAtlas.Proofs.ClassFile.ModifiedUtf8
import LineAtlas.Proofs.ClassFile.PoolLayout
import LineAtlas.Proofs.ClassFile.ValueLayout
import LineAtlas.Proofs.ClassFile.ClassLayout
import LineAtlas.Proofs.Resolution.Claims
import LineAtlas.Proofs.Resolution.Rules
import LineAtlas.Proofs.Resolution.Accounting
import LineAtlas.Proofs.Resolution.Policy
import LineAtlas.Proofs.Run.Pool
import LineAtlas.Proofs.StableSort
import LineAtlas.Proofs.Run.Scheduling
import LineAtlas.Proofs.Run.Isolation
import LineAtlas.Proofs.Levels
import LineAtlas.Proofs.Report.Items
import LineAtlas.Proofs.Tree.Forest
import LineAtlas.Proofs.Report.Walk
import LineAtlas.Proofs.Tree.Places
import LineAtlas.Proofs.Report.Shown
import LineAtlas.Proofs.Report.FileEntry
import LineAtlas.Proofs.Report.Reached
import LineAtlas.Proofs.Report.Budget
import LineAtlas.Proofs.Tree.Block
import LineAtlas.Proofs.Tree.LocalFunctions
import LineAtlas.Proofs.Tree.Faults
import LineAtlas.Proofs.Tree.Members
import LineAtlas.Proofs.Tree.DefaultBodies
import LineAtlas.Proofs.Tree.Laid
import LineAtlas.Proofs.Tree.Adding
import LineAtlas.Proofs.Tree.Holders
import LineAtlas.Proofs.Tree.Keeping
import LineAtlas.Proofs.Tree.Homes
import LineAtlas.Proofs.Tree.Placing
import LineAtlas.Proofs.Tree.Companions
import LineAtlas.Proofs.Tree.Enclosing
import LineAtlas.Proofs.Tree.Prepared
import LineAtlas.Proofs.Tree.Composition
import LineAtlas.Proofs.Tree.Arranged
import LineAtlas.Proofs.Tree.Standing
import LineAtlas.Proofs.Tree.Composed
import LineAtlas.Proofs.Tree.BackReferences
import LineAtlas.Proofs.Tree.Acyclic
import LineAtlas.Proofs.Resolution.Units
import LineAtlas.Proofs.Resolution.Locals
import LineAtlas.Proofs.Tree.Strays
import LineAtlas.Proofs.Tree.Chains
import LineAtlas.Proofs.Tree.Shows
import LineAtlas.Proofs.Tree.Reporting
import LineAtlas.Proofs.Tree.Conservation
import LineAtlas.Proofs.Tree.Renaming
import LineAtlas.Proofs.Tree.Correspondence
import LineAtlas.Proofs.Tree.Parts
import LineAtlas.Proofs.Tree.UnitOrder
import LineAtlas.Proofs.Tree.HolderOrder
import LineAtlas.Proofs.Tree.SameHomes
import LineAtlas.Proofs.Tree.OrderIndependence
import LineAtlas.Proofs.Name.Mangled
import LineAtlas.Proofs.ClassFile.Law
import LineAtlas.Proofs.ClassFile.Course
import LineAtlas.Proofs.ClassFile.PrefixFree
import LineAtlas.Proofs.Exchange.Offering
import LineAtlas.Proofs.Text.Decimal
import LineAtlas.Proofs.Json.Scan
import LineAtlas.Proofs.Json.ReadBack
import LineAtlas.Proofs.Exchange.Formats
import LineAtlas.Proofs.Report.ReadBack
import LineAtlas.Proofs.Report.RoundTrip
import LineAtlas.Proofs.Resolution.Order
import LineAtlas.Proofs.Tree.LocalOrder
import LineAtlas.Proofs.Tree.Listing
import LineAtlas.Proofs.Tree.HolderListing
import LineAtlas.Proofs.Tree.ListedOrder
import LineAtlas.Proofs.Report.Order
import LineAtlas.Proofs.Report.DeclarationOrder
import LineAtlas.Proofs.Resolution.Requests
import LineAtlas.Proofs.Resolution.Candidates
import LineAtlas.Proofs.Resolution.ExactBinding
import LineAtlas.Proofs.Resolution.DefaultHelpers
import LineAtlas.Proofs.Text.Split
import LineAtlas.Proofs.Name.Local
import LineAtlas.Proofs.Tree.OuterKeys
import LineAtlas.Proofs.Tree.Hanging
import LineAtlas.Proofs.Tree.SoleHelpers
import LineAtlas.Proofs.Tree.LocalPlaces
import LineAtlas.Proofs.Tree.BodySearch
import LineAtlas.Proofs.Tree.PlacedLocals
import LineAtlas.Proofs.Tree.InterfaceBodies
import LineAtlas.Proofs.Name.Descriptor
import LineAtlas.Proofs.Name.DefaultHelper
import LineAtlas.Proofs.Tree.Overlooking
import LineAtlas.Proofs.Tree.Repeats
import LineAtlas.Proofs.Run.FailFast
import LineAtlas.Proofs.Tree.Forwarders
import LineAtlas.Proofs.Tree.Confirmation
import LineAtlas.Proofs.Name.DescriptorOffsets
import LineAtlas.Proofs.Name.DescriptorGrammar
import LineAtlas.Proofs.Metadata.Unpacking
import LineAtlas.Proofs.Metadata.Fields
import LineAtlas.Proofs.Metadata.AlikeMessages
import LineAtlas.Proofs.Metadata.Rearranging
import LineAtlas.Proofs.Metadata.TypeTables
import LineAtlas.Proofs.Name.MangledEnds
import LineAtlas.Proofs.Metadata.DefaultDescriptor
import LineAtlas.Proofs.Metadata.NameTables
import LineAtlas.Proofs.Metadata.NumberPairs
import LineAtlas.Proofs.Metadata.WireFormat
import LineAtlas.Proofs.Run.Status
import LineAtlas.Proofs.Files.Discovery
import LineAtlas.Proofs.Files.Sources
import LineAtlas.Proofs.Name.ClassName
import LineAtlas.Proofs.Tree.LambdaPlaces
