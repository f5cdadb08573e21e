import SymbolAtlas.Archive.Basic
import SymbolAtlas.Archive.Directory
import SymbolAtlas.Archive.Ending
import SymbolAtlas.Archive.Inflate
import SymbolAtlas.Bundle.Basic
import SymbolAtlas.Command.Answer
import SymbolAtlas.Command.Arguments
import SymbolAtlas.Command.Basic
import SymbolAtlas.Command.Effect
import SymbolAtlas.Command.Run
import SymbolAtlas.Descriptor.Basic
import SymbolAtlas.Descriptor.Reader
import SymbolAtlas.Digest
import SymbolAtlas.Disk.Basic
import SymbolAtlas.Disk.Script
import SymbolAtlas.Fault
import SymbolAtlas.Fault.Diagnostic
import SymbolAtlas.Graph.Basic
import SymbolAtlas.Graph.Extras
import SymbolAtlas.Graph.Index
import SymbolAtlas.Graph.Reader
import SymbolAtlas.Graph.Remap
import SymbolAtlas.Instant.Basic
import SymbolAtlas.Instant.Reader
import SymbolAtlas.Json.Basic
import SymbolAtlas.Json.Escape
import SymbolAtlas.Json.Printer
import SymbolAtlas.Json.Reader
import SymbolAtlas.Kind
import SymbolAtlas.Ledger
import SymbolAtlas.Main
import SymbolAtlas.Naming.Apply
import SymbolAtlas.Naming.Rename
import SymbolAtlas.Progress
import SymbolAtlas.Proofs.AppendOnly
import SymbolAtlas.Proofs.Atomicity
import SymbolAtlas.Proofs.BundleLayout
import SymbolAtlas.Proofs.CarriedNames
import SymbolAtlas.Proofs.ClassAnswers
import SymbolAtlas.Proofs.ClassLookup
import SymbolAtlas.Proofs.ClassSections
import SymbolAtlas.Proofs.CommandEffect
import SymbolAtlas.Proofs.CommandOperation
import SymbolAtlas.Proofs.CommandSession
import SymbolAtlas.Proofs.ConcurrentCommands
import SymbolAtlas.Proofs.ConstructorLists
import SymbolAtlas.Proofs.Crowd
import SymbolAtlas.Proofs.DescriptorGrammar
import SymbolAtlas.Proofs.DescriptorReading
import SymbolAtlas.Proofs.DirectoryTree
import SymbolAtlas.Proofs.DocumentRoundTrip
import SymbolAtlas.Proofs.Entered
import SymbolAtlas.Proofs.ExclusiveChange
import SymbolAtlas.Proofs.GraphIndexes
import SymbolAtlas.Proofs.GraphTally
import SymbolAtlas.Proofs.ImportContents
import SymbolAtlas.Proofs.InstantRoundTrip
import SymbolAtlas.Proofs.JsonRoundTrip
import SymbolAtlas.Proofs.LedgerCoherence
import SymbolAtlas.Proofs.LineAcceptance
import SymbolAtlas.Proofs.LineReading
import SymbolAtlas.Proofs.ListedNames
import SymbolAtlas.Proofs.LockAuthority
import SymbolAtlas.Proofs.LockProtection
import SymbolAtlas.Proofs.Looking
import SymbolAtlas.Proofs.MappedTypes
import SymbolAtlas.Proofs.MemberAnswers
import SymbolAtlas.Proofs.MigratedNames
import SymbolAtlas.Proofs.NameIndex
import SymbolAtlas.Proofs.NameLookup
import SymbolAtlas.Proofs.NameRows
import SymbolAtlas.Proofs.NameValidity
import SymbolAtlas.Proofs.NamingEffect
import SymbolAtlas.Proofs.Operation
import SymbolAtlas.Proofs.OperationEffect
import SymbolAtlas.Proofs.PairedIndex
import SymbolAtlas.Proofs.PromotedVersion
import SymbolAtlas.Proofs.RecordRoundTrip
import SymbolAtlas.Proofs.RecordedTimes
import SymbolAtlas.Proofs.References
import SymbolAtlas.Proofs.RenameOutcome
import SymbolAtlas.Proofs.RenamedText
import SymbolAtlas.Proofs.ReportedNames
import SymbolAtlas.Proofs.ReverseMapping
import SymbolAtlas.Proofs.SettingsKept
import SymbolAtlas.Proofs.SettingsText
import SymbolAtlas.Proofs.SharedStore
import SymbolAtlas.Proofs.SlotNames
import SymbolAtlas.Proofs.SpelledTexts
import SymbolAtlas.Proofs.StaticMarks
import SymbolAtlas.Proofs.StoreCommit
import SymbolAtlas.Proofs.StoreSoundness
import SymbolAtlas.Proofs.StoredDescriptors
import SymbolAtlas.Proofs.TakenNames
import SymbolAtlas.Proofs.TextLayout
import SymbolAtlas.Proofs.TextLines
import SymbolAtlas.Proofs.TurnTaking
import SymbolAtlas.Proofs.TypeSpelling
import SymbolAtlas.Proofs.VersionEffect
import SymbolAtlas.Proofs.VersionIsolation
import SymbolAtlas.Settings.Basic
import SymbolAtlas.Settings.Quoted
import SymbolAtlas.Settings.Token
import SymbolAtlas.Store.Basic
import SymbolAtlas.Store.Document
import SymbolAtlas.Store.Import
import SymbolAtlas.Store.Lookup
import SymbolAtlas.Store.Query
import SymbolAtlas.Store.Update
import SymbolAtlas.SymbolId
import SymbolAtlas.Table
import SymbolAtlas.Text.Alphabet
import SymbolAtlas.Text.CodePage
import SymbolAtlas.Text.Line
