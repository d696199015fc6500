import Braceless.Program.Construct
import Braceless.Workspace
import Braceless.Main
import Braceless.Proofs.Grammar
import Braceless.Proofs.Parser.Frame
import Braceless.Proofs.Parser.Sound
import Braceless.Proofs.Parser.Soundness
import Braceless.Proofs.Parser.Skipping
import Braceless.Proofs.Parser.Reads
import Braceless.Proofs.Parser.Completeness
import Braceless.Proofs.Target.Tokens
import Braceless.Proofs.Target.Reading
import Braceless.Proofs.Lowering
import Braceless.Proofs.Lexer.Coverage
import Braceless.Proofs.Mentions
import Braceless.Proofs.Parser.Trace
import Braceless.Proofs.Parser.Tracing
import Braceless.Proofs.DeclarationTable
import Braceless.Proofs.BlockStructure
import Braceless.Proofs.Scope
import Braceless.Proofs.Semantics
import Braceless.Proofs.Target.Execution
import Braceless.Proofs.Target.Commands
import Braceless.Proofs.CoreCommands
import Braceless.Proofs.MeaningPreservation
import Braceless.Proofs.Parser.Positions
import Braceless.Proofs.UndeclaredUses
import Braceless.Proofs.CompleteTrees
import Braceless.Proofs.Placeholders
import Braceless.Proofs.Levels
import Braceless.Proofs.Parser.LevelBound
import Braceless.Proofs.NestingLimit
import Braceless.Proofs.Target.Remarks
import Braceless.Proofs.Literals
import Braceless.Proofs.Target.Identifiers
import Braceless.Proofs.Naming
import Braceless.Proofs.Relocation
import Braceless.Proofs.Parser.Progress
import Braceless.Proofs.Parser.SideBySide
import Braceless.Proofs.Parser.Coupled
import Braceless.Proofs.ClassAndScript
import Braceless.Proofs.Trivia
import Braceless.Proofs.LayoutIndependence
import Braceless.Proofs.Lexer.Lines
import Braceless.Proofs.Lexer.Relexing
import Braceless.Proofs.Lexer.Gaps
import Braceless.Proofs.Lexer.Scanner
import Braceless.Proofs.Diagnostics
import Braceless.Proofs.ReportReading
import Braceless.Proofs.Lexer.Faults
import Braceless.Proofs.QuotedLiterals
import Braceless.Proofs.Sentences
import Braceless.Proofs.Target.Ranges
import Braceless.Proofs.CountingLoops
import Braceless.Proofs.Cursor.Machine
import Braceless.Proofs.Cursor.Follows
import Braceless.Proofs.Cursor.Productions
import Braceless.Proofs.CursorProgress
import Braceless.Proofs.NestingBalance
