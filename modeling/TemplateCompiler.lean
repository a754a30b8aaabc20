import TemplateCompiler.Command.Arguments
import TemplateCompiler.Command.Config
import TemplateCompiler.Command.Document
import TemplateCompiler.Command.FileTree
import TemplateCompiler.Command.Grammar
import TemplateCompiler.Command.Path
import TemplateCompiler.Command.Run
import TemplateCompiler.Compile
import TemplateCompiler.Diagnostic
import TemplateCompiler.Main
import TemplateCompiler.Markup.Attributes
import TemplateCompiler.Markup.Doctype
import TemplateCompiler.Markup.Event
import TemplateCompiler.Markup.Fault
import TemplateCompiler.Markup.Piece
import TemplateCompiler.Markup.RawText
import TemplateCompiler.Markup.Span
import TemplateCompiler.Markup.StrayAngle
import TemplateCompiler.Markup.Tag
import TemplateCompiler.Markup.TagContent
import TemplateCompiler.Markup.Tokens
import TemplateCompiler.Options
import TemplateCompiler.Package.Layout
import TemplateCompiler.Package.Mode
import TemplateCompiler.Package.Program
import TemplateCompiler.Script.Call
import TemplateCompiler.Script.Identifier
import TemplateCompiler.Script.Listing
import TemplateCompiler.Script.Quoted
import TemplateCompiler.Template.AttributeRole
import TemplateCompiler.Template.Condition
import TemplateCompiler.Template.EachClause
import TemplateCompiler.Template.Frame
import TemplateCompiler.Template.HoistPool
import TemplateCompiler.Template.Interpolation
import TemplateCompiler.Template.Key
import TemplateCompiler.Template.Session
import TemplateCompiler.Template.TagKind
import TemplateCompiler.Text.Blank
import TemplateCompiler.Text.Bytes
import TemplateCompiler.Text.Case
import TemplateCompiler.Text.Lines
import TemplateCompiler.Text.Search
import TemplateCompiler.Proofs.OpenTags
import TemplateCompiler.Proofs.Indentation
import TemplateCompiler.Proofs.Resumption
import TemplateCompiler.Proofs.TagRepair
import TemplateCompiler.Proofs.Forest.Meaning
import TemplateCompiler.Proofs.Forest.Compilation
import TemplateCompiler.Proofs.Forest.Exchange
import TemplateCompiler.Proofs.DirectiveForms
import TemplateCompiler.Proofs.FirstOccurrence
import TemplateCompiler.Proofs.Forest.WellFormed
import TemplateCompiler.Proofs.Forest.Acceptance
import TemplateCompiler.Proofs.QuotedTexts
import TemplateCompiler.Proofs.StaticAttributes
import TemplateCompiler.Proofs.Hoisting
import TemplateCompiler.Proofs.Markup.PrintedTags
import TemplateCompiler.Proofs.Markup.Printing
import TemplateCompiler.Proofs.Markup.Tiling
import TemplateCompiler.Proofs.LoopScopes
import TemplateCompiler.Proofs.ChildKeys
import TemplateCompiler.Proofs.Markup.Cuts
import TemplateCompiler.Proofs.Markup.Excerpts
import TemplateCompiler.Proofs.TextIssues
import TemplateCompiler.Proofs.GeneratedIds
import TemplateCompiler.Proofs.Balance
import TemplateCompiler.Proofs.Forest.BranchEnds
import TemplateCompiler.Proofs.Markup.EventStreams
import TemplateCompiler.Proofs.ReportedPlaces
import TemplateCompiler.Proofs.Markup.StrayAngles
import TemplateCompiler.Proofs.Packaging
import TemplateCompiler.Proofs.Noninterference
import TemplateCompiler.Proofs.Command.Paths
import TemplateCompiler.Proofs.Command.FileTrees
import TemplateCompiler.Proofs.Command.Runs
import TemplateCompiler.Proofs.Command.OutputDirectory
import TemplateCompiler.Proofs.PoolOperations
import TemplateCompiler.Proofs.Prologue
import TemplateCompiler.Proofs.TextSegments
import TemplateCompiler.Proofs.StringLiterals
import TemplateCompiler.Proofs.ContinuedLines
import TemplateCompiler.Proofs.Classification
import TemplateCompiler.Proofs.Markup.RawTextEnds
import TemplateCompiler.Proofs.Streaming
import TemplateCompiler.Proofs.FunctionDescription
import TemplateCompiler.Proofs.Command.Signatures
import TemplateCompiler.Proofs.PrintedForms
