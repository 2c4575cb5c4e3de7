import MiniLisp.Location
import MiniLisp.Text.Blank
import MiniLisp.Text.Quoted
import MiniLisp.Decimal.Basic
import MiniLisp.Decimal.Shortest
import MiniLisp.Decimal.Layout
import MiniLisp.Arity
import MiniLisp.Parameters
import MiniLisp.Primitive
import MiniLisp.Value.Basic
import MiniLisp.Value.Equality
import MiniLisp.Value.Text
import MiniLisp.Text.Hidden
import MiniLisp.Text.Escaped
import MiniLisp.Value.Dump
import MiniLisp.Reader.Mark
import MiniLisp.Reader.Error
import MiniLisp.Reader.State
import MiniLisp.Reader.Basic
import MiniLisp.Fault
import MiniLisp.Store
import MiniLisp.Event
import MiniLisp.Builtin
import MiniLisp.Machine
import MiniLisp.Eval
import MiniLisp.Session
import MiniLisp.Options
import MiniLisp.Launch
import MiniLisp.Console
import MiniLisp.Main
import MiniLisp.Proofs.Reader.Halt
import MiniLisp.Proofs.Decimal.Literal
import MiniLisp.Proofs.Reader.Lexeme
import MiniLisp.Proofs.Decimal.Double
import MiniLisp.Proofs.Decimal.ReadBack
import MiniLisp.Proofs.Reader.RoundTrip
import MiniLisp.Proofs.Eval.Changes
import MiniLisp.Proofs.Eval.Footprint
import MiniLisp.Proofs.Reader.Grammar
import MiniLisp.Proofs.Reader.Spelling
import MiniLisp.Proofs.Reader.Tokenize
import MiniLisp.Proofs.Reader.TwoPass
import MiniLisp.Proofs.Reader.Completion
import MiniLisp.Proofs.Store.Matching
import MiniLisp.Proofs.Eval.Matching
import MiniLisp.Proofs.Session.Leniency
import MiniLisp.Proofs.Store.Growth
import MiniLisp.Proofs.Value.Everywhere
import MiniLisp.Proofs.Eval.Traits
import MiniLisp.Proofs.Eval.Agreement
import MiniLisp.Proofs.Reader.Written
import MiniLisp.Proofs.Reader.Layout
import MiniLisp.Proofs.Reader.Coverage
import MiniLisp.Proofs.Reader.Placement
import MiniLisp.Proofs.Reader.Image
import MiniLisp.Proofs.Session.Nothing
import MiniLisp.Proofs.Scope.Basic
import MiniLisp.Proofs.Scope.Safety
import MiniLisp.Proofs.Store.Rooted
import MiniLisp.Proofs.Scope.Weakening
import MiniLisp.Proofs.Session.Orderly
import MiniLisp.Proofs.Eval.Unstuck
import MiniLisp.Proofs.Reader.Concatenation
import MiniLisp.Proofs.Session.Pieces
import MiniLisp.Proofs.Session.Numbered
import MiniLisp.Proofs.Session.Commuting
import MiniLisp.Proofs.Eval.Discipline
import MiniLisp.Proofs.Session.History
import MiniLisp.Proofs.Session.Accounted
import MiniLisp.Proofs.Session.Blame
import MiniLisp.Proofs.Session.Identity
import MiniLisp.Proofs.Session.OneRow
import MiniLisp.Proofs.Text.Unbroken
import MiniLisp.Proofs.Value.Equality
import MiniLisp.Proofs.Reader.Progress
import MiniLisp.Proofs.Reader.Sugar
import MiniLisp.Proofs.Eval.Calls
import MiniLisp.Proofs.Decimal.Laws
import MiniLisp.Proofs.Builtin.Answers
import MiniLisp.Proofs.Builtin.Comparison
import MiniLisp.Proofs.Builtin.Arithmetic
import MiniLisp.Proofs.Session.Inert
import MiniLisp.Proofs.Options
import MiniLisp.Proofs.Store.Shadowing
