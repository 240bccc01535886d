import SettingsScan.Main
import SettingsScan.Proofs.CommandLine.BuiltinArguments
import SettingsScan.Proofs.CommandLine.Depth
import SettingsScan.Proofs.CommandLine.FileForms
import SettingsScan.Proofs.CommandLine.Forwarded
import SettingsScan.Proofs.CommandLine.Inlining
import SettingsScan.Proofs.CommandLine.Names
import SettingsScan.Proofs.CommandLine.RoundTrip
import SettingsScan.Proofs.CommandLine.RuleOrder
import SettingsScan.Proofs.CommandLine.Segments
import SettingsScan.Proofs.CommandLine.Unread
import SettingsScan.Proofs.CommandLine.WellFormed
import SettingsScan.Proofs.Config.Problems
import SettingsScan.Proofs.Config.Validation
import SettingsScan.Proofs.Detection.BuiltinRegistry
import SettingsScan.Proofs.Detection.Composition
import SettingsScan.Proofs.Detection.Exactness
import SettingsScan.Proofs.Detection.FileName
import SettingsScan.Proofs.Detection.History
import SettingsScan.Proofs.Detection.Memory
import SettingsScan.Proofs.Detection.Mirror
import SettingsScan.Proofs.Detection.PlainGcc
import SettingsScan.Proofs.Detection.Precedence
import SettingsScan.Proofs.Detection.QuotedPath
import SettingsScan.Proofs.Detection.Quotes
import SettingsScan.Proofs.Detection.Registry
import SettingsScan.Proofs.Detection.Scan
import SettingsScan.Proofs.Detection.ShortNames
import SettingsScan.Proofs.Detection.Split
import SettingsScan.Proofs.Detection.ToolPath
import SettingsScan.Proofs.Detection.Windows
import SettingsScan.Proofs.Except
import SettingsScan.Proofs.FileSystem.Write
import SettingsScan.Proofs.Invocation.Accounting
import SettingsScan.Proofs.Invocation.ArgumentList
import SettingsScan.Proofs.Invocation.ArrayScan
import SettingsScan.Proofs.Invocation.BuiltinRequests
import SettingsScan.Proofs.Invocation.Directories
import SettingsScan.Proofs.Invocation.DirectoryMessage
import SettingsScan.Proofs.Invocation.EntryFields
import SettingsScan.Proofs.Invocation.Folders
import SettingsScan.Proofs.Invocation.Insertion
import SettingsScan.Proofs.Invocation.Layout
import SettingsScan.Proofs.Invocation.LogLines
import SettingsScan.Proofs.Invocation.PathOption
import SettingsScan.Proofs.Invocation.PathOptionLoss
import SettingsScan.Proofs.Invocation.ProjectFilter
import SettingsScan.Proofs.Invocation.SourceLanguage
import SettingsScan.Proofs.Invocation.SourceName
import SettingsScan.Proofs.Invocation.Survival
import SettingsScan.Proofs.Invocation.ToolCall
import SettingsScan.Proofs.Json.ArrayText
import SettingsScan.Proofs.Json.Grammar
import SettingsScan.Proofs.Json.Numeral
import SettingsScan.Proofs.Json.Pretty
import SettingsScan.Proofs.Json.Rest
import SettingsScan.Proofs.Json.StringText
import SettingsScan.Proofs.Json.ValueText
import SettingsScan.Proofs.Option.Anchor
import SettingsScan.Proofs.Option.Cut
import SettingsScan.Proofs.Option.Forms
import SettingsScan.Proofs.Option.MacroName
import SettingsScan.Proofs.Option.Operand
import SettingsScan.Proofs.Option.Quoting
import SettingsScan.Proofs.Option.Reading
import SettingsScan.Proofs.Option.Seam
import SettingsScan.Proofs.Option.Value
import SettingsScan.Proofs.Path.Absolute
import SettingsScan.Proofs.Path.Directory
import SettingsScan.Proofs.Path.Extension
import SettingsScan.Proofs.Path.Normal
import SettingsScan.Proofs.Path.Order
import SettingsScan.Proofs.Path.Reduction
import SettingsScan.Proofs.Pattern.Captures
import SettingsScan.Proofs.Pattern.Edge
import SettingsScan.Proofs.Pattern.Embedding
import SettingsScan.Proofs.Pattern.Grouped
import SettingsScan.Proofs.Pattern.Heads
import SettingsScan.Proofs.Pattern.Image
import SettingsScan.Proofs.Pattern.Language
import SettingsScan.Proofs.Pattern.Leftmost
import SettingsScan.Proofs.Pattern.LetterCase
import SettingsScan.Proofs.Pattern.Mirror
import SettingsScan.Proofs.Pattern.MoveTail
import SettingsScan.Proofs.Pattern.Moves
import SettingsScan.Proofs.Pattern.Opening
import SettingsScan.Proofs.Pattern.Seam
import SettingsScan.Proofs.Pattern.Seek
import SettingsScan.Proofs.Pattern.SetTail
import SettingsScan.Proofs.Pattern.Tail
import SettingsScan.Proofs.Pattern.Ways
import SettingsScan.Proofs.Program.Stages
import SettingsScan.Proofs.Report.Recovery
import SettingsScan.Proofs.Report.Store
import SettingsScan.Proofs.Search
import SettingsScan.Proofs.Text.Escape
import SettingsScan.Proofs.Text.ShellState
import SettingsScan.Proofs.Text.Utf16
import SettingsScan.Proofs.Text.Utf8
import SettingsScan.Proofs.Text.Words
