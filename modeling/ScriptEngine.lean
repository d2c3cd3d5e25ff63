import ScriptEngine.Builtin
import ScriptEngine.Builtin.Array
import ScriptEngine.Builtin.Map
import ScriptEngine.Builtin.Number
import ScriptEngine.Builtin.Text
import ScriptEngine.BuiltinClass
import ScriptEngine.Class
import ScriptEngine.CommandLine
import ScriptEngine.Console
import ScriptEngine.Decimal.Binary
import ScriptEngine.Decimal.Reader
import ScriptEngine.Decimal.Shortest
import ScriptEngine.Evaluator
import ScriptEngine.Evaluator.Call
import ScriptEngine.Evaluator.Class
import ScriptEngine.Evaluator.Expression
import ScriptEngine.Evaluator.Module
import ScriptEngine.Evaluator.Operator
import ScriptEngine.Evaluator.Property
import ScriptEngine.Evaluator.Statement
import ScriptEngine.Fault
import ScriptEngine.FileSystem
import ScriptEngine.Frame
import ScriptEngine.Heap
import ScriptEngine.Heap.Clone
import ScriptEngine.Heap.Display
import ScriptEngine.Heap.Equality
import ScriptEngine.Machine
import ScriptEngine.Main
import ScriptEngine.ModuleTree
import ScriptEngine.Number
import ScriptEngine.Path
import ScriptEngine.Program
import ScriptEngine.Program.Parser
import ScriptEngine.Program.Parser.Basic
import ScriptEngine.Program.Parser.Expression
import ScriptEngine.Program.Parser.Statement
import ScriptEngine.Proofs.Class.Backing
import ScriptEngine.Proofs.Class.SearchOrder
import ScriptEngine.Proofs.Class.Slot
import ScriptEngine.Proofs.Evaluator.Answer
import ScriptEngine.Proofs.Evaluator.Attempt
import ScriptEngine.Proofs.Evaluator.BrokenImport
import ScriptEngine.Proofs.Evaluator.Calling
import ScriptEngine.Proofs.Evaluator.Chain
import ScriptEngine.Proofs.Evaluator.Closing
import ScriptEngine.Proofs.Evaluator.ClosingStep
import ScriptEngine.Proofs.Evaluator.Composed
import ScriptEngine.Proofs.Evaluator.Displaced
import ScriptEngine.Proofs.Evaluator.Expression
import ScriptEngine.Proofs.Evaluator.Flow
import ScriptEngine.Proofs.Evaluator.Imported
import ScriptEngine.Proofs.Evaluator.Importing
import ScriptEngine.Proofs.Evaluator.Importless
import ScriptEngine.Proofs.Evaluator.Instantiation
import ScriptEngine.Proofs.Evaluator.Later
import ScriptEngine.Proofs.Evaluator.Loading
import ScriptEngine.Proofs.Evaluator.Local
import ScriptEngine.Proofs.Evaluator.Lookup
import ScriptEngine.Proofs.Evaluator.Naming
import ScriptEngine.Proofs.Evaluator.Observer
import ScriptEngine.Proofs.Evaluator.Order
import ScriptEngine.Proofs.Evaluator.Place
import ScriptEngine.Proofs.Evaluator.Reporting
import ScriptEngine.Proofs.Evaluator.Sparing
import ScriptEngine.Proofs.Evaluator.Stack
import ScriptEngine.Proofs.Evaluator.Statement
import ScriptEngine.Proofs.Evaluator.Step
import ScriptEngine.Proofs.Evaluator.Subclass
import ScriptEngine.Proofs.Evaluator.Tracking
import ScriptEngine.Proofs.Evaluator.TwinCalls
import ScriptEngine.Proofs.Evaluator.TwinExpressions
import ScriptEngine.Proofs.Evaluator.TwinModules
import ScriptEngine.Proofs.Evaluator.TwinNames
import ScriptEngine.Proofs.Evaluator.TwinStatements
import ScriptEngine.Proofs.Evaluator.Twins
import ScriptEngine.Proofs.Evaluator.Visit
import ScriptEngine.Proofs.Evaluator.World
import ScriptEngine.Proofs.FileSystem.Spelling
import ScriptEngine.Proofs.Frame.Image
import ScriptEngine.Proofs.Frame.Nearest
import ScriptEngine.Proofs.Heap.Builtin
import ScriptEngine.Proofs.Heap.Comparable
import ScriptEngine.Proofs.Heap.Copy
import ScriptEngine.Proofs.Heap.Equality
import ScriptEngine.Proofs.Heap.Fit
import ScriptEngine.Proofs.Heap.Image
import ScriptEngine.Proofs.Heap.Independence
import ScriptEngine.Proofs.Heap.Index
import ScriptEngine.Proofs.Heap.Limit
import ScriptEngine.Proofs.Heap.Methods
import ScriptEngine.Proofs.Heap.Mirror
import ScriptEngine.Proofs.Heap.Objects
import ScriptEngine.Proofs.Heap.Plain
import ScriptEngine.Proofs.Heap.Refusal
import ScriptEngine.Proofs.Heap.Region
import ScriptEngine.Proofs.Heap.Resemblance
import ScriptEngine.Proofs.Heap.Table
import ScriptEngine.Proofs.Heap.Working
import ScriptEngine.Proofs.ModuleTree.Extends
import ScriptEngine.Proofs.ModuleTree.Linked
import ScriptEngine.Proofs.ModuleTree.Reach
import ScriptEngine.Proofs.ModuleTree.Search
import ScriptEngine.Proofs.Number.Bitwise
import ScriptEngine.Proofs.Number.Equality
import ScriptEngine.Proofs.Number.Sign
import ScriptEngine.Proofs.Number.Whole
import ScriptEngine.Proofs.Program.ArrowHead
import ScriptEngine.Proofs.Program.Joining
import ScriptEngine.Proofs.Program.JoiningStatements
import ScriptEngine.Proofs.Program.Node
import ScriptEngine.Proofs.Program.Numbering
import ScriptEngine.Proofs.Program.Parsed
import ScriptEngine.Proofs.Program.Part
import ScriptEngine.Proofs.Program.Position
import ScriptEngine.Proofs.Program.Precedence
import ScriptEngine.Proofs.Program.Readable
import ScriptEngine.Proofs.Program.Reading
import ScriptEngine.Proofs.Program.ReadingStatements
import ScriptEngine.Proofs.Program.Relabeling
import ScriptEngine.Proofs.Program.RoundTrip
import ScriptEngine.Proofs.Program.Spelling
import ScriptEngine.Proofs.Program.Terminating
import ScriptEngine.Proofs.Program.Walking
import ScriptEngine.Proofs.Program.WalkingGrammar
import ScriptEngine.Proofs.Program.Writing
import ScriptEngine.Proofs.Scope.Context
import ScriptEngine.Proofs.Scope.Mark
import ScriptEngine.Proofs.Scope.Recorded
import ScriptEngine.Proofs.Scope.Relabeling
import ScriptEngine.Proofs.Scope.Shape
import ScriptEngine.Proofs.Scope.Use
import ScriptEngine.Proofs.Scope.Walker
import ScriptEngine.Proofs.Session.Backing
import ScriptEngine.Proofs.Session.BrokenImport
import ScriptEngine.Proofs.Session.Cache
import ScriptEngine.Proofs.Session.Distances
import ScriptEngine.Proofs.Session.Failure
import ScriptEngine.Proofs.Session.Importless
import ScriptEngine.Proofs.Session.Initializer
import ScriptEngine.Proofs.Session.Instance
import ScriptEngine.Proofs.Session.Joined
import ScriptEngine.Proofs.Session.Load
import ScriptEngine.Proofs.Session.Module
import ScriptEngine.Proofs.Session.Name
import ScriptEngine.Proofs.Session.Operator
import ScriptEngine.Proofs.Session.Play
import ScriptEngine.Proofs.Session.Receiver
import ScriptEngine.Proofs.Session.Reference
import ScriptEngine.Proofs.Session.Rejection
import ScriptEngine.Proofs.Session.Status
import ScriptEngine.Proofs.Session.Twins
import ScriptEngine.Proofs.Token.Decoding
import ScriptEngine.Proofs.Token.Escape
import ScriptEngine.Proofs.Token.Joining
import ScriptEngine.Proofs.Token.Lexeme
import ScriptEngine.Proofs.Token.Line
import ScriptEngine.Proofs.Token.Longest
import ScriptEngine.Proofs.Token.Partition
import ScriptEngine.Proofs.Token.Piece
import ScriptEngine.Proofs.Token.Position
import ScriptEngine.Proofs.Token.Spaced
import ScriptEngine.Reporter
import ScriptEngine.Scope
import ScriptEngine.Session
import ScriptEngine.Store
import ScriptEngine.Text.Blank
import ScriptEngine.Text.Case
import ScriptEngine.Text.CaseTable
import ScriptEngine.Text.HiddenTable
import ScriptEngine.Text.Lines
import ScriptEngine.Text.Quoted
import ScriptEngine.Text.Replace
import ScriptEngine.Token
import ScriptEngine.Token.Lexer
import ScriptEngine.Token.Quoted
import ScriptEngine.Value
