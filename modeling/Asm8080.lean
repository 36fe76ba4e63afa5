import Asm8080.Assembly.Workbench
import Asm8080.Command.Assemble
import Asm8080.Command.Disassemble
import Asm8080.Disassembly.Stream
import Asm8080.Expr.Tree
import Asm8080.Main
import Asm8080.Proofs.Assembly.Contents
import Asm8080.Proofs.Assembly.ExactValues
import Asm8080.Proofs.Assembly.Failures
import Asm8080.Proofs.Assembly.LabelEquate
import Asm8080.Proofs.Assembly.LetterCase
import Asm8080.Proofs.Assembly.Listing
import Asm8080.Proofs.Assembly.Renaming
import Asm8080.Proofs.Assembly.ReservedWords
import Asm8080.Proofs.Assembly.Retexting
import Asm8080.Proofs.Assembly.Sections
import Asm8080.Proofs.Assembly.Session
import Asm8080.Proofs.Assembly.SymbolFile
import Asm8080.Proofs.Command.Exits
import Asm8080.Proofs.Command.SourceFile
import Asm8080.Proofs.Disassembly.Partition
import Asm8080.Proofs.Disassembly.RoundTrip
import Asm8080.Proofs.Disassembly.Stream
import Asm8080.Proofs.Expr.Blame
import Asm8080.Proofs.Expr.Faults
import Asm8080.Proofs.Expr.Printing
import Asm8080.Proofs.Number.Notation
import Asm8080.Proofs.Statement.Grammar
import Asm8080.Proofs.Statement.Joining
import Asm8080.Proofs.Statement.SourceLine
import Asm8080.Proofs.Text.EditDistance
import Asm8080.Proofs.Token.Sharing
import Asm8080.Token.Reader
