import OperatorTree.Operator
import OperatorTree.Literal
import OperatorTree.Tree.Basic
import OperatorTree.Tree.Flatten
import OperatorTree.Text.Unprintable
import OperatorTree.Text.Quoted
import OperatorTree.Text.Brackets
import OperatorTree.Text.Bytes
import OperatorTree.Expr.Basic
import OperatorTree.Expr.Entries
import OperatorTree.Expr.Text
import OperatorTree.Expr.Outline
import OperatorTree.Expr.Record
import OperatorTree.Grammar.Search
import OperatorTree.Grammar.Cuts
import OperatorTree.Grammar.Production
import OperatorTree.Grammar.Parse
import OperatorTree.Store.Basic
import OperatorTree.Store.Navigation
import OperatorTree.Store.Edit
import OperatorTree.Store.Flatten
import OperatorTree.Store.Copy
import OperatorTree.Store.Compare
import OperatorTree.Grammar.Ranges
import OperatorTree.Session.Basic
import OperatorTree.Session.Command
import OperatorTree.Session.Run
import OperatorTree.Session.Report
import OperatorTree.CommandLine
import OperatorTree.Main
import OperatorTree.Proofs.Grammar.Level
import OperatorTree.Proofs.Grammar.Lookahead
import OperatorTree.Proofs.Grammar.Language
import OperatorTree.Proofs.Store.View
import OperatorTree.Proofs.Store.Forest
import OperatorTree.Proofs.Store.Walks
import OperatorTree.Proofs.Expr.Shape
import OperatorTree.Proofs.Store.Merge
import OperatorTree.Proofs.Store.Plant
import OperatorTree.Proofs.Store.Shape
import OperatorTree.Proofs.Session.Reachable
import OperatorTree.Proofs.Expr.Spelling
import OperatorTree.Proofs.Store.Flatten
import OperatorTree.Proofs.Grammar.RoundTrip
import OperatorTree.Proofs.Session.Parsing
import OperatorTree.Proofs.Store.Survivors
import OperatorTree.Proofs.Store.Recursion
import OperatorTree.Proofs.Session.Flattening
import OperatorTree.Proofs.Session.Refused
import OperatorTree.Proofs.Session.Isolation
import OperatorTree.Proofs.Expr.Join
import OperatorTree.Proofs.Grammar.Terms
import OperatorTree.Proofs.Grammar.Choices
import OperatorTree.Proofs.Grammar.Ambiguity
import OperatorTree.Proofs.Grammar.Precedence
import OperatorTree.Proofs.Grammar.Rereading
import OperatorTree.Proofs.Session.Lifetimes
import OperatorTree.Proofs.Session.Release
import OperatorTree.Proofs.Session.Arity
import OperatorTree.Proofs.Store.Confluence
import OperatorTree.Proofs.Store.MergeEvents
import OperatorTree.Proofs.Session.Accounting
import OperatorTree.Proofs.Session.Absorption
import OperatorTree.Proofs.Expr.Meaning
import OperatorTree.Proofs.Session.Meaning
import OperatorTree.Proofs.Session.Refusals
import OperatorTree.Proofs.Store.Exchange
import OperatorTree.Proofs.Session.Exchange
import OperatorTree.Proofs.Expr.Outline
import OperatorTree.Proofs.Session.Outline
import OperatorTree.Proofs.Tree.Pairs
import OperatorTree.Proofs.Text.Respelled
import OperatorTree.Proofs.Grammar.Respelled
import OperatorTree.Proofs.Session.Respelled
import OperatorTree.Proofs.Tree.Rearranged
import OperatorTree.Proofs.Expr.Relabelled
import OperatorTree.Proofs.Grammar.Operands
import OperatorTree.Proofs.Grammar.Calm
import OperatorTree.Proofs.Grammar.Rearranged
import OperatorTree.Proofs.Store.Rearranged
import OperatorTree.Proofs.Session.Rearranged
import OperatorTree.Proofs.Expr.Entries
import OperatorTree.Proofs.Expr.Record
import OperatorTree.Proofs.Grammar.Groups
import OperatorTree.Proofs.Session.Equality
import OperatorTree.Proofs.Text.Delimited
import OperatorTree.Proofs.Text.Brackets
import OperatorTree.Proofs.Expr.Inventory
import OperatorTree.Proofs.Grammar.Inventory
import OperatorTree.Proofs.Session.Parentheses
import OperatorTree.Proofs.Session.Inventory
import OperatorTree.Proofs.Text.Bytes
import OperatorTree.Proofs.Store.Build
import OperatorTree.Proofs.Grammar.Runs
import OperatorTree.Proofs.Grammar.Ranges
import OperatorTree.Proofs.Text.Matching
import OperatorTree.Proofs.Store.Roots
import OperatorTree.Proofs.Session.Navigation
import OperatorTree.Proofs.Session.Attempts
import OperatorTree.Proofs.CommandLine.Output
