import UnaryC.Machine.Run
import UnaryC.Main
import UnaryC.Tac.Run
import UnaryC.Proofs.RunSimulation
import UnaryC.Proofs.Selection
import UnaryC.Proofs.Frame
import UnaryC.Proofs.Legal
import UnaryC.Proofs.Backend
import UnaryC.Proofs.Compiler
import UnaryC.Proofs.LexicalGrammar
import UnaryC.Proofs.LongestMatch
import UnaryC.Proofs.Scanning
import UnaryC.Proofs.UniqueCut
import UnaryC.Proofs.Grammar
import UnaryC.Proofs.Reader
import UnaryC.Proofs.FirstError
import UnaryC.Proofs.Faultless
import UnaryC.Proofs.Rendering
import UnaryC.Proofs.AssemblyText
import UnaryC.Proofs.StackFrame
import UnaryC.Proofs.StackDiscipline
import UnaryC.Proofs.Path
import UnaryC.Proofs.FileTree
import UnaryC.Proofs.Action
import UnaryC.Proofs.SourceFile
import UnaryC.Proofs.Layout
import UnaryC.Proofs.Course
import UnaryC.Proofs.Delivery
import UnaryC.Proofs.Intermediates
import UnaryC.Proofs.ScanError
import UnaryC.Proofs.Placement
import UnaryC.Proofs.SingleAssignment
import UnaryC.Proofs.Concatenation
import UnaryC.Proofs.EndOfInput
import UnaryC.Proofs.Positions
import UnaryC.Proofs.Constants
import UnaryC.Proofs.LineEndings
import UnaryC.Proofs.RepeatedPasses
import UnaryC.Proofs.Rows
import UnaryC.Proofs.CodeListing
import UnaryC.Proofs.Gutter
import UnaryC.Proofs.Outline
import UnaryC.Proofs.NameSupply
import UnaryC.Proofs.Verbosity
import UnaryC.Proofs.ByteScan
