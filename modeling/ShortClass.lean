import ShortClass.Alphabet
import ShortClass.Artifact
import ShortClass.Bundle
import ShortClass.ClassList
import ShortClass.ClassMap
import ShortClass.CommandLine
import ShortClass.CommandLine.Arguments
import ShortClass.Config
import ShortClass.Edits
import ShortClass.FileTree
import ShortClass.Main
import ShortClass.Minifier
import ShortClass.Path
import ShortClass.Pattern
import ShortClass.Pattern.Match
import ShortClass.Pattern.Reader
import ShortClass.Pattern.Term
import ShortClass.Program.Escape
import ShortClass.Program.Grammar.Binding
import ShortClass.Program.Grammar.Callable
import ShortClass.Program.Grammar.Expression
import ShortClass.Program.Grammar.Markup
import ShortClass.Program.Grammar.Statement
import ShortClass.Program.Lexeme
import ShortClass.Program.Literal
import ShortClass.Program.Node
import ShortClass.Program.Parse
import ShortClass.Program.Parser
import ShortClass.Program.Rename
import ShortClass.Stylesheet
import ShortClass.Stylesheet.Selector
import ShortClass.Stylesheet.Statement
import ShortClass.Stylesheet.Token
import ShortClass.Text.Blank
import ShortClass.Text.Case
import ShortClass.Text.CodePoint
import ShortClass.Text.Comment
import ShortClass.Text.Digits
import ShortClass.Text.JsonText
import ShortClass.Text.LineFeed
import ShortClass.Text.Order
import ShortClass.Text.Position
import ShortClass.Text.Printable
import ShortClass.Text.Quoted
import ShortClass.Text.Ranges
import ShortClass.Text.Word
import ShortClass.Toml
import ShortClass.Toml.Reader
import ShortClass.Toml.Value
import ShortClass.Usage
import ShortClass.Proofs.Stylesheet.ClosedText
import ShortClass.Proofs.Stylesheet.NameText
import ShortClass.Proofs.Stylesheet.SelectorPieces
import ShortClass.Proofs.Splice
import ShortClass.Proofs.Stylesheet.ComponentMarks
import ShortClass.Proofs.Stylesheet.SheetItems
import ShortClass.Proofs.Stylesheet.SheetMarks
import ShortClass.Proofs.ShortName
import ShortClass.Proofs.Stylesheet.KeptWhole
import ShortClass.Proofs.Stylesheet.Segments
import ShortClass.Proofs.Stylesheet.SheetSegments
import ShortClass.Proofs.Stylesheet.Renaming
import ShortClass.Proofs.NameNumbers
import ShortClass.Proofs.Allocation
import ShortClass.Proofs.ClassListRenaming
import ShortClass.Proofs.Program.EscapedText
import ShortClass.Proofs.Program.NestedTree
import ShortClass.Proofs.Program.NewText
import ShortClass.Proofs.Program.JoinFlags
import ShortClass.Proofs.ClassListPieces
import ShortClass.Proofs.Program.Concatenation
import ShortClass.Proofs.Program.ConcatenationRenaming
import ShortClass.Proofs.ClassMatching
import ShortClass.Proofs.Program.LexemeBounds
import ShortClass.Proofs.Program.ParserRules
import ShortClass.Proofs.Program.Grammar.Binding
import ShortClass.Proofs.Program.Grammar.Callable
import ShortClass.Proofs.Program.Grammar.Markup
import ShortClass.Proofs.Program.Grammar.Expression
import ShortClass.Proofs.Program.Grammar.Statement
import ShortClass.Proofs.Program.ParsedTree
import ShortClass.Proofs.CallHistory
import ShortClass.Proofs.ClassListStems
import ShortClass.Proofs.Program.LiteralSpans
import ShortClass.Proofs.BuiltNames
import ShortClass.Proofs.Stylesheet.JoinedSheets
import ShortClass.Proofs.SheetsOfBundle
import ShortClass.Proofs.TokensKept
import ShortClass.Proofs.Program.Composed
import ShortClass.Proofs.Program.ComposedRenaming
import ShortClass.Proofs.Stylesheet.OpenGroups
import ShortClass.Proofs.Stylesheet.Derivation
import ShortClass.Proofs.Stylesheet.FirstRefused
import ShortClass.Proofs.MergedUsage
import ShortClass.Proofs.BundlePass
import ShortClass.Proofs.ForeignArtifacts
import ShortClass.Proofs.NameOrder
import ShortClass.Proofs.SeparateEdits
import ShortClass.Proofs.RenamedSource
import ShortClass.Proofs.Program.LiteralPlaces
import ShortClass.Proofs.CommandRuns
import ShortClass.Proofs.StableOrder
import ShortClass.Proofs.AlphabetOrder
import ShortClass.Proofs.NamesInTurn
import ShortClass.Proofs.EnoughNames
import ShortClass.Proofs.ExtractionState
import ShortClass.Proofs.Program.KeptNames
import ShortClass.Proofs.Program.StringValue
import ShortClass.Proofs.Stylesheet.WrittenSelector
import ShortClass.Proofs.Stylesheet.RuleOrder
import ShortClass.Proofs.Stylesheet.ComponentPlaces
import ShortClass.Proofs.EditsInTurn
import ShortClass.Proofs.Program.Spellings
import ShortClass.Proofs.Program.StyleValues
import ShortClass.Proofs.MapHistory
import ShortClass.Proofs.AlphabetHistory
import ShortClass.Proofs.Program.NodeShapes
import ShortClass.Proofs.Program.GrammarShapes
import ShortClass.Proofs.Program.OperandPlaces
import ShortClass.Proofs.PathNames
import ShortClass.Proofs.WrittenFiles
import ShortClass.Proofs.KeptOutputs
