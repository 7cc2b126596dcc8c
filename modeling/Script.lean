import Script.CommandLine
import Script.CommandLine.Files
import Script.Decimal.Basic
import Script.Decimal.Shortest
import Script.Environment
import Script.Evaluation
import Script.Grammar.Basic
import Script.Grammar.Expression
import Script.Grammar.Statement
import Script.Kind
import Script.Literal
import Script.Machine
import Script.Main
import Script.Operator
import Script.Position
import Script.Proofs.ActionSteps
import Script.Proofs.BoundValues
import Script.Proofs.CursorPositions
import Script.Proofs.GrammarComplete
import Script.Proofs.GrammarRules
import Script.Proofs.GrammarSound
import Script.Proofs.GrammarSteps
import Script.Proofs.HiddenBindings
import Script.Proofs.LexemeSplit
import Script.Proofs.LoopFreeRuns
import Script.Proofs.ParserSteps
import Script.Proofs.ProgramsInTurn
import Script.Proofs.RunBalance
import Script.Proofs.RunCongruence
import Script.Proofs.RunLimits
import Script.Proofs.ScopeStack
import Script.Proofs.Shadowing
import Script.Proofs.TextLines
import Script.Proofs.TokenReading
import Script.Proofs.TokenRelabeling
import Script.RuntimeError
import Script.Session
import Script.Signature
import Script.Text
import Script.Token.Basic
import Script.Token.Cursor
import Script.Tree
import Script.Value.Basic
import Script.Value.Operation
import Script.Proofs.JoinedSources
import Script.Proofs.Checkpoints
import Script.Proofs.CorrespondingMachines
import Script.Proofs.RunSimulation
import Script.Proofs.Layout
import Script.Proofs.ScopeDepth
import Script.Proofs.MapStack
import Script.Proofs.ParseFaults
import Script.Proofs.ErrorPositions
import Script.Proofs.EchoedValues
import Script.Proofs.FlatFunctions
import Script.Proofs.OperatorPrecedence
import Script.Proofs.NativeArguments
import Script.Proofs.NestingLimit
import Script.Proofs.BoundNames
import Script.Proofs.UnassignedNames
import Script.Proofs.TokenPatterns
import Script.Proofs.LongestLexeme
import Script.Proofs.SpreadTokens
import Script.Proofs.ErrorExcerpts
import Script.Proofs.OperatorTable
import Script.Proofs.IntegerArithmetic
import Script.Proofs.KindAgreement
import Script.Proofs.Comparisons
import Script.Proofs.ErrorLines
import Script.Proofs.ReadingProgress
import Script.Proofs.ReadingLoops
