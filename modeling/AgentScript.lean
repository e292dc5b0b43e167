import AgentScript.Decimal.Reading
import AgentScript.Decimal.Printing
import AgentScript.Diagnostic.Issue
import AgentScript.Diagnostic.Lexical
import AgentScript.Diagnostic.Parse
import AgentScript.Document
import AgentScript.Grammar.Block
import AgentScript.Grammar.File
import AgentScript.Grammar.Flow
import AgentScript.Grammar.Message
import AgentScript.Grammar.Parser
import AgentScript.Grammar.Section
import AgentScript.Grammar.State
import AgentScript.Grammar.Value
import AgentScript.Json.Basic
import AgentScript.Json.Printing
import AgentScript.Json.Reading
import AgentScript.Json.Record
import AgentScript.Layout.State
import AgentScript.Layout.Mode
import AgentScript.Lexeme.Captured
import AgentScript.Lexeme.EmbeddedCode
import AgentScript.Lexeme.Number
import AgentScript.Lexeme.Piece
import AgentScript.Lexeme.QuotedString
import AgentScript.Lexeme.TypeTag
import AgentScript.Lexeme.Word
import AgentScript.Reading.Round
import AgentScript.Reading.Tokens
import AgentScript.Serial.Agent
import AgentScript.Serial.Diagnostic
import AgentScript.Serial.Flow
import AgentScript.Serial.Message
import AgentScript.Serial.Source
import AgentScript.Serial.Value
import AgentScript.Source.Cursor
import AgentScript.Source.Position
import AgentScript.Text.CharClass
import AgentScript.Text.CharClass.Caseless
import AgentScript.Text.CharClass.Cased
import AgentScript.Text.CharClass.Numeric
import AgentScript.Text.CharRun
import AgentScript.Text.Chomping
import AgentScript.Text.Quoted
import AgentScript.Token.Basic
import AgentScript.Token.Keyword
import AgentScript.Token.Kind
import AgentScript.Token.Stream
import AgentScript.Tree.Agent
import AgentScript.Tree.Build
import AgentScript.Tree.Flow
import AgentScript.Tree.Message
import AgentScript.Tree.Value
import AgentScript.Validation
import AgentScript.Proofs.Reading.Transcription
import AgentScript.Proofs.Reading.LineStructure
import AgentScript.Proofs.Reading.SkippedText
import AgentScript.Proofs.Reading.Coverage
import AgentScript.Proofs.Reading.Positions
import AgentScript.Proofs.Parsing.TokenStreams
import AgentScript.Proofs.Parsing.Course
import AgentScript.Proofs.Parsing.Agreement
import AgentScript.Proofs.Parsing.InlineAgreement
import AgentScript.Proofs.Parsing.Proceeding
import AgentScript.Proofs.Parsing.Nodes
import AgentScript.Proofs.Parsing.Placement
import AgentScript.Proofs.Parsing.Building
import AgentScript.Proofs.Parsing.ValuePlacement
import AgentScript.Proofs.Parsing.LinePlacement
import AgentScript.Proofs.Parsing.SectionPlacement
import AgentScript.Proofs.Parsing.MessagePlacement
import AgentScript.Proofs.Reading.Openings
import AgentScript.Proofs.Parsing.FilePlacement
import AgentScript.Proofs.Parsing.Bodies
import AgentScript.Proofs.Parsing.Bounds
import AgentScript.Proofs.Parsing.Lockstep
import AgentScript.Proofs.Parsing.SharedBlocks
import AgentScript.Proofs.Parsing.ValueLines
import AgentScript.Proofs.Parsing.MessageLines
import AgentScript.Proofs.Parsing.SectionLines
import AgentScript.Proofs.Parsing.BodyRuns
import AgentScript.Proofs.Parsing.FileLines
import AgentScript.Proofs.Parsing.SectionRuns
import AgentScript.Proofs.Parsing.LineByLine
import AgentScript.Proofs.Parsing.Capping
import AgentScript.Proofs.Parsing.ErrorCap
import AgentScript.Proofs.Parsing.Outline
import AgentScript.Proofs.Parsing.OuterLines
import AgentScript.Proofs.Parsing.FailedLines
import AgentScript.Proofs.Parsing.BalancedRounds
import AgentScript.Proofs.Parsing.Descent
import AgentScript.Proofs.Parsing.Termination
import AgentScript.Proofs.Writing.Words
import AgentScript.Proofs.Writing.Lexemes
import AgentScript.Proofs.Writing.Marks
import AgentScript.Proofs.Writing.Indentation
import AgentScript.Proofs.Writing.Acceptance
import AgentScript.Proofs.Writing.Erasure
import AgentScript.Proofs.Writing.Phrases
import AgentScript.Proofs.Writing.QuotedTexts
import AgentScript.Proofs.Writing.Scripts
import AgentScript.Proofs.Writing.ScriptTrees
import AgentScript.Proofs.Writing.WrittenFiles
import AgentScript.Proofs.Writing.Numbers
import AgentScript.Proofs.Writing.TypeTags
import AgentScript.Proofs.Writing.InlineValues
import AgentScript.Proofs.Writing.InlineReading
import AgentScript.Proofs.Writing.InlineTrees
import AgentScript.Proofs.Writing.Configurations
import AgentScript.Proofs.Writing.EmbeddedCode
import AgentScript.Proofs.Writing.Passages
import AgentScript.Proofs.Writing.MultilineStrings
import AgentScript.Proofs.Writing.Chomping
import AgentScript.Proofs.Rendering.Trees
import AgentScript.Proofs.Rendering.States
import AgentScript.Proofs.Rendering.Parsers
import AgentScript.Proofs.Rendering.Values
import AgentScript.Proofs.Rendering.Sections
import AgentScript.Proofs.Rendering.Files
import AgentScript.Proofs.LineEnds.Scanners
import AgentScript.Proofs.LineEnds.Pieces
import AgentScript.Proofs.LineEnds.Rounds
import AgentScript.Proofs.LineEnds.Transcripts
import AgentScript.Proofs.LineEnds.Documents
import AgentScript.Proofs.Shapes.Values
import AgentScript.Proofs.Shapes.Parsers
import AgentScript.Proofs.Shapes.Sections
import AgentScript.Proofs.Shapes.Answers
import AgentScript.Proofs.Shapes.CleanParses
import AgentScript.Proofs.Shapes.TreeValues
import AgentScript.Proofs.Shapes.FilledBlocks
import AgentScript.Proofs.Shapes.CleanLines
import AgentScript.Proofs.Shapes.MessageReadings
import AgentScript.Proofs.Shapes.MessageRanges
import AgentScript.Proofs.Shapes.TreeNumbers
import AgentScript.Proofs.Sentences.Grammar
import AgentScript.Proofs.Sentences.Recognition
import AgentScript.Proofs.Sentences.InlineValues
import AgentScript.Proofs.Sentences.FlowWords
import AgentScript.Proofs.Sentences.Lines
import AgentScript.Proofs.Sentences.FlowBodies
import AgentScript.Proofs.Sentences.FlowSections
import AgentScript.Proofs.Reading.Spans
import AgentScript.Proofs.Reading.Composites
import AgentScript.Proofs.Parsing.TypeTags
import AgentScript.Proofs.Reading.Continuation
import AgentScript.Proofs.Serial.Records
import AgentScript.Proofs.Serial.Values
import AgentScript.Proofs.Serial.Readers
import AgentScript.Proofs.Serial.ReadableValues
import AgentScript.Proofs.Serial.Files
import AgentScript.Proofs.Serial.Messages
import AgentScript.Proofs.Serial.Scalars
import AgentScript.Proofs.Serial.Texts
import AgentScript.Proofs.Serial.RoundTrip
import AgentScript.Proofs.Serial.Refusals
import AgentScript.Proofs.Reading.Levels
import AgentScript.Proofs.Reading.Brackets
import AgentScript.Proofs.Reading.PhysicalLines
import AgentScript.Proofs.Reading.CapturedBlocks
import AgentScript.Proofs.Reading.LogicalLines
import AgentScript.Proofs.Reading.RoundStates
import AgentScript.Proofs.Reading.OwnRounds
import AgentScript.Proofs.Reading.LexicalModes
import AgentScript.Proofs.Reading.StringTokens
import AgentScript.Proofs.Reading.BlockReadings
import AgentScript.Proofs.Reading.SideBySide
import AgentScript.Proofs.Reading.RewrittenBlocks
import AgentScript.Proofs.Validation.Errors
import AgentScript.Proofs.Validation.Warnings
import AgentScript.Proofs.Reflow.Rounds
import AgentScript.Proofs.Reflow.Correspondence
import AgentScript.Proofs.Reflow.BlankLines
import AgentScript.Proofs.Reflow.Delimiters
import AgentScript.Proofs.Reflow.DelimitedRounds
import AgentScript.Proofs.Reflow.JoinedLines
import AgentScript.Proofs.Reflow.Tokens
import AgentScript.Proofs.Reflow.States
import AgentScript.Proofs.Reflow.Progress
import AgentScript.Proofs.Reflow.Parsers
import AgentScript.Proofs.Reflow.Values
import AgentScript.Proofs.Reflow.Sections
import AgentScript.Proofs.Reflow.Files
import AgentScript.Proofs.Reflow.IndentedText
import AgentScript.Proofs.Reflow.Indentation
import AgentScript.Proofs.Reflow.LastLine
import AgentScript.Proofs.Reflow.Beginnings
import AgentScript.Proofs.Reflow.FinalNewline
import AgentScript.Proofs.Writing.Interruptions
import AgentScript.Proofs.Writing.Objections
import AgentScript.Proofs.Writing.FlowAgents
import AgentScript.Proofs.Writing.Parameters
import AgentScript.Proofs.Writing.Conditions
import AgentScript.Proofs.Decimals.Rounding
import AgentScript.Proofs.Decimals.Range
import AgentScript.Proofs.Decimals.Literals
import AgentScript.Proofs.Decimals.StoredNumbers
