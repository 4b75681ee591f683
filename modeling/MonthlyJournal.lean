import MonthlyJournal.Build
import MonthlyJournal.CommandLine
import MonthlyJournal.Config
import MonthlyJournal.Decimal
import MonthlyJournal.Entry.Basic
import MonthlyJournal.Entry.Render
import MonthlyJournal.Files.Directory
import MonthlyJournal.Files.Path
import MonthlyJournal.Files.System
import MonthlyJournal.FrontMatter
import MonthlyJournal.Journal.Basic
import MonthlyJournal.Journal.Listing
import MonthlyJournal.Journal.Page
import MonthlyJournal.Json
import MonthlyJournal.Main
import MonthlyJournal.Outline
import MonthlyJournal.Proofs.Build.Agreement
import MonthlyJournal.Proofs.Build.Memory
import MonthlyJournal.Proofs.Build.Writing
import MonthlyJournal.Proofs.Config.Defaults
import MonthlyJournal.Proofs.Document.Position
import MonthlyJournal.Proofs.Document.Slice
import MonthlyJournal.Proofs.Entry.Body
import MonthlyJournal.Proofs.Entry.Demotion
import MonthlyJournal.Proofs.Entry.Head
import MonthlyJournal.Proofs.Entry.MetaSection
import MonthlyJournal.Proofs.Entry.Reading
import MonthlyJournal.Proofs.Entry.Rendering
import MonthlyJournal.Proofs.Files.Listing
import MonthlyJournal.Proofs.Files.Path
import MonthlyJournal.Proofs.Files.Place
import MonthlyJournal.Proofs.Files.System
import MonthlyJournal.Proofs.Files.Tree
import MonthlyJournal.Proofs.FrontMatter.Quoting
import MonthlyJournal.Proofs.Journal.Addition
import MonthlyJournal.Proofs.Journal.Brackets
import MonthlyJournal.Proofs.Journal.Collisions
import MonthlyJournal.Proofs.Journal.Conflicts
import MonthlyJournal.Proofs.Journal.Grouping
import MonthlyJournal.Proofs.Journal.Labels
import MonthlyJournal.Proofs.Journal.Links
import MonthlyJournal.Proofs.Journal.Listing
import MonthlyJournal.Proofs.Journal.Naming
import MonthlyJournal.Proofs.Journal.Planning
import MonthlyJournal.Proofs.Journal.Sections
import MonthlyJournal.Proofs.Journal.Unsourced
import MonthlyJournal.Proofs.Outline.Outcome
import MonthlyJournal.Proofs.Outline.Padding
import MonthlyJournal.Proofs.Outline.Placement
import MonthlyJournal.Proofs.Outline.Shift
import MonthlyJournal.Proofs.Sink.Directory
import MonthlyJournal.Proofs.Sink.Run
import MonthlyJournal.Proofs.Slug.Cut
import MonthlyJournal.Proofs.Slug.Words
import MonthlyJournal.Proofs.Source.Configuration
import MonthlyJournal.Proofs.Source.Discovery
import MonthlyJournal.Proofs.Text.Dictionary
import MonthlyJournal.Proofs.Text.Digits
import MonthlyJournal.Proofs.Text.Lines
import MonthlyJournal.Proofs.Text.Padding
import MonthlyJournal.Proofs.Text.Words
import MonthlyJournal.Proofs.Toml.Merge
import MonthlyJournal.Proofs.Toml.Opening
import MonthlyJournal.Proofs.Toml.Paths
import MonthlyJournal.Proofs.Toml.Reading
import MonthlyJournal.Proofs.Yaml.Aliases
import MonthlyJournal.Proofs.Yaml.Lines
import MonthlyJournal.Proofs.Yaml.Numbers
import MonthlyJournal.Proofs.Yaml.Styles
import MonthlyJournal.Sink
import MonthlyJournal.Slug.Spellings
import MonthlyJournal.Text
import MonthlyJournal.Toml.Document
import MonthlyJournal.Toml.Strings
import MonthlyJournal.Toml.Value
import MonthlyJournal.Yaml.Cursor
import MonthlyJournal.Yaml.Node
import MonthlyJournal.Yaml.Scalar
import MonthlyJournal.Yaml.Tag
import MonthlyJournal.Yaml.Token
import MonthlyJournal.Yaml.Value
