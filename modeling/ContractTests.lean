import ContractTests.Main
import ContractTests.Proofs.Expr.Traversal
import ContractTests.Proofs.Expr.Value
import ContractTests.Proofs.Contract.Assertion
import ContractTests.Proofs.Sharing.Rounds
import ContractTests.Proofs.Sharing.Outcome
import ContractTests.Proofs.TestRun.Machine
import ContractTests.Proofs.TestRun.Names
import ContractTests.Proofs.TestRun.Entry
import ContractTests.Proofs.TestRun.Call
import ContractTests.Proofs.TestRun.Law
import ContractTests.Proofs.TestRun.PostState
import ContractTests.Proofs.Expr.Same
import ContractTests.Proofs.Contract.NullSafe
import ContractTests.Proofs.Java.Plain
import ContractTests.Proofs.TestClass.Build
import ContractTests.Proofs.TestClass.Vocabulary
import ContractTests.Proofs.TestClass.Written
import ContractTests.Proofs.TestClass.Rendered
import ContractTests.Proofs.Json.Scan
import ContractTests.Proofs.Json.Written
import ContractTests.Proofs.Expr.Json
import ContractTests.Proofs.Contract.Saved
import ContractTests.Proofs.Java.Declaration
import ContractTests.Proofs.Java.Settled
import ContractTests.Proofs.Java.Lines
import ContractTests.Proofs.TestClass.Settled
import ContractTests.Proofs.Search.Documents
import ContractTests.Proofs.TestClass.Sequence
import ContractTests.Proofs.Sharing.Symbolic
import ContractTests.Proofs.TestMethod.Writes
import ContractTests.Proofs.TestMethod.Hygiene
import ContractTests.Proofs.TestMethod.InPlace
import ContractTests.Proofs.Contract.Wire
import ContractTests.Proofs.Contract.Insertion
import ContractTests.Proofs.TestMethod.Scoping
import ContractTests.Proofs.TestRun.NullGuard
import ContractTests.Proofs.Decimal.Shortest
import ContractTests.Proofs.Json.Distinct
import ContractTests.Proofs.TestClass.Json
import ContractTests.Proofs.Java.Token
import ContractTests.Proofs.Java.Words
import ContractTests.Proofs.Java.Grammar
import ContractTests.Proofs.Java.Reading
import ContractTests.Proofs.Java.Texts
import ContractTests.Proofs.Java.TypeArguments
import ContractTests.Proofs.Java.Collections
import ContractTests.Proofs.Java.Precedence
import ContractTests.Proofs.Java.TypeName
import ContractTests.Proofs.Java.MapLimit
import ContractTests.Proofs.TestMethod.Failure
import ContractTests.Proofs.TestMethod.CollectionCopy
import ContractTests.Proofs.Expr.Contexts
import ContractTests.Proofs.TestClass.Unmatched
import ContractTests.Proofs.Sharing.Ending
import ContractTests.Proofs.Sharing.Fixpoint
import ContractTests.Proofs.Sharing.Capture
import ContractTests.Proofs.Expr.Copies
import ContractTests.Proofs.Sharing.Once
import ContractTests.Proofs.Text.Fork
import ContractTests.Proofs.Java.Zeros
import ContractTests.Proofs.Sharing.Merged
import ContractTests.Proofs.Text.Trim
import ContractTests.Proofs.Text.Firsts
import ContractTests.Proofs.Java.Lexical
import ContractTests.Proofs.Java.Nesting
import ContractTests.Proofs.Java.ParameterList
import ContractTests.Proofs.Java.StringLiteral
import ContractTests.Proofs.Java.ParameterDeclaration
import ContractTests.Proofs.Java.Signature
import ContractTests.Proofs.Java.Reworded
import ContractTests.Proofs.Java.CodeOnly
import ContractTests.Proofs.TestClass.SymbolicForm
import ContractTests.Proofs.TestClass.Renderable
import ContractTests.Proofs.TestClass.Imports
import ContractTests.Proofs.Text.Split
import ContractTests.Proofs.CommandLine.CallSources
import ContractTests.Proofs.Expr.Children
import ContractTests.Proofs.Java.Indentation
import ContractTests.Proofs.Files.Emission
import ContractTests.Proofs.Java.Modifiers
import ContractTests.Proofs.Sharing.Variables
