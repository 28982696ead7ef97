import ScriptLexer.Cursor
import ScriptLexer.Proofs.BlockComments
import ScriptLexer.Proofs.Braces
import ScriptLexer.Proofs.EndMark
import ScriptLexer.Proofs.Gaps
import ScriptLexer.Proofs.Interpolation
import ScriptLexer.Proofs.LineFix
import ScriptLexer.Proofs.Longest
import ScriptLexer.Proofs.MacroBan
import ScriptLexer.Proofs.Nesting
import ScriptLexer.Proofs.NumberText
import ScriptLexer.Proofs.Relexing
import ScriptLexer.Proofs.Restored
import ScriptLexer.Proofs.Splice
import ScriptLexer.Proofs.Subscans
import ScriptLexer.Proofs.Templates
import ScriptLexer.Proofs.Unreached
import ScriptLexer.Proofs.Writing
import ScriptLexer.Scan
import ScriptLexer.Token.Inspect
import ScriptLexer.Proofs.EscapeAppend
import ScriptLexer.Proofs.Machine.Moves
import ScriptLexer.Proofs.Operations
import ScriptLexer.Proofs.CursorRuns
