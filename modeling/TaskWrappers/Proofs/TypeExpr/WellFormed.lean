import TaskWrappers.Proofs.Text.Name
import TaskWrappers.TypeExpr.Basic

/-!
# Well formed types

A type can be written down if its keywords are keywords and its names are names, and if a name that
is made of several parts does not open with a keyword, which would end it. What else a written type
needs, the data has: a last segment, a first argument, two elements of a tuple.
-/

namespace TaskWrappers

open Text

namespace TypeExpr

/-- The word that a name opens with. -/
def firstWord (qualifier : Option String) (outer : List Segment) (last : Segment) : String :=
  match qualifier, outer with
  | some q, _ => q
  | none, s :: _ => s.name
  | none, [] => last.name

end TypeExpr

mutual

def TypeExpr.WellFormed : TypeExpr → Prop
  | .keyword word => word ∈ TypeExpr.keywords
  | .named qualifier outer last =>
    (∀ q, qualifier = some q → isName q) ∧ Segment.AllWellFormed outer ∧ last.WellFormed ∧
      TypeExpr.firstWord qualifier outer last ∉ TypeExpr.keywords
  | .nullable inner => inner.WellFormed
  | .array element _ => element.WellFormed
  | .tuple first second rest =>
    first.WellFormed ∧ second.WellFormed ∧ TupleElement.AllWellFormed rest

def Segment.WellFormed : Segment → Prop
  | .plain name => isName name
  | .generic name first rest => isName name ∧ first.WellFormed ∧ TypeArg.AllWellFormed rest

def Segment.AllWellFormed : List Segment → Prop
  | [] => True
  | s :: ss => s.WellFormed ∧ Segment.AllWellFormed ss

def TypeArg.WellFormed : TypeArg → Prop
  | .omitted => True
  | .given type => type.WellFormed

def TypeArg.AllWellFormed : List TypeArg → Prop
  | [] => True
  | a :: as => a.WellFormed ∧ TypeArg.AllWellFormed as

def TupleElement.WellFormed : TupleElement → Prop
  | ⟨type, name⟩ => type.WellFormed ∧ ∀ n, name = some n → isName n

def TupleElement.AllWellFormed : List TupleElement → Prop
  | [] => True
  | e :: es => e.WellFormed ∧ TupleElement.AllWellFormed es

end

theorem TypeExpr.isName_of_mem_keywords {word : String} (h : word ∈ keywords) :
    isName word = true := by
  have all : ∀ w ∈ keywords, isName w = true := by decide
  exact all word h

end TaskWrappers
