import TaskWrappers.ConstantExpr.Value

/-!
# The grammar of constant expressions

What an expression is, apart from how it is read: a sum of terms, each of which spells some text or
the path of a constant (`ConstantExpr.Derives`). The pieces of an expression are all that its value
depends on (`ConstantExpr.join`). The name that `nameof` stands for is the last one in its body that
stands in no inner parentheses and no angle brackets.
-/

namespace TaskWrappers.ConstantExpr

open ConstantToken

/-- What a term contributes to the value of an expression. -/
inductive Piece where
  | text (value : String)
  | constant (path : String)
  deriving DecidableEq

/-- The two kinds of phrases. -/
inductive Phrase where
  | term
  | sum

/-- Whether parentheses close all that is open, the given number from before, and no more. -/
def Balanced : Nat → List ConstantToken → Prop
  | depth, [] => depth = 0
  | depth, leftParen :: ts => Balanced (depth + 1) ts
  | 0, rightParen :: _ => False
  | depth + 1, rightParen :: ts => Balanced depth ts
  | depth, _ :: ts => Balanced depth ts

/-- The names that stand in no parentheses and no angle brackets, where the given numbers of them
are open before. -/
def visibleNames : Nat → Nat → List ConstantToken → List String
  | _, _, [] => []
  | depth, angles, leftParen :: ts => visibleNames (depth + 1) angles ts
  | depth, angles, rightParen :: ts => visibleNames (depth - 1) angles ts
  | depth, angles, other '<' :: ts => visibleNames depth (angles + 1) ts
  | depth, angles, other '>' :: ts => visibleNames depth (angles - 1) ts
  | 0, 0, name n :: ts => n :: visibleNames 0 0 ts
  | depth, angles, _ :: ts => visibleNames depth angles ts

/-- The tokens of a path after its first name. -/
def memberTokens (names : List String) : List ConstantToken :=
  names.flatMap fun n => [dot, name n]

/-- How tokens spell pieces. -/
inductive Derives : Phrase → List ConstantToken → List Piece → Prop where
  | text (value : List Char) : Derives .term [text value] [.text (.ofList value)]
  | parens {ts : List ConstantToken} {ps : List Piece} (hsum : Derives .sum ts ps) :
      Derives .term (leftParen :: (ts ++ [rightParen])) ps
  | nameof {body : List ConstantToken} {n : String} (hbody : Balanced 0 body)
      (hlast : (visibleNames 0 0 body).getLast? = some n) :
      Derives .term (name "nameof" :: leftParen :: (body ++ [rightParen])) [.text n]
  | path (first : String) (names : List String) :
      Derives .term (name first :: memberTokens names) [.constant (Scope.dotted (first :: names))]
  | last {ts : List ConstantToken} {ps : List Piece} (hterm : Derives .term ts ps) :
      Derives .sum ts ps
  | plus {ts us : List ConstantToken} {ps qs : List Piece} (hterm : Derives .term ts ps)
      (hsum : Derives .sum us qs) : Derives .sum (ts ++ plus :: us) (ps ++ qs)

/-- Whether an expression as a whole spells some pieces. -/
def Spells (expression : String) (ps : List Piece) : Prop :=
  ∃ ts, scan expression.toList = some ts ∧ Derives .sum ts ps

theorem Derives.ne_nil {phrase : Phrase} {ts : List ConstantToken} {ps : List Piece}
    (h : Derives phrase ts ps) : ts ≠ [] := by
  induction h with
  | last _ ih => exact ih
  | _ => simp

/-- The value of a piece where paths have the given values. -/
def Piece.value? (lookup : Lookup) : Piece → Option String
  | .text value => some value
  | .constant path => lookup path

/-- The values of all pieces, one after the other. -/
def join (lookup : Lookup) : List Piece → Option String
  | [] => some ""
  | p :: ps => do
    let value ← p.value? lookup
    let more ← join lookup ps
    return value ++ more

theorem join_append (lookup : Lookup) (qs : List Piece) : ∀ ps : List Piece,
    join lookup (ps ++ qs) = (join lookup ps).bind fun value =>
      (join lookup qs).map (value ++ ·)
  | [] => by
    rw [List.nil_append, join, Option.bind_some]
    cases join lookup qs with
    | none => rfl
    | some more => rw [Option.map_some, String.empty_append]
  | p :: ps => by
    rw [List.cons_append, join, join, join_append lookup qs ps]
    cases p.value? lookup with
    | none => rfl
    | some value =>
      cases join lookup ps with
      | none => rfl
      | some more =>
        cases join lookup qs with
        | none => rfl
        | some rest => simp [String.append_assoc]

theorem join_singleton (lookup : Lookup) (p : Piece) : join lookup [p] = p.value? lookup := by
  rw [join, join]
  cases p.value? lookup with
  | none => rfl
  | some value => simp

/-- Whether `global::` stands somewhere among tokens. -/
def usesGlobal : List ConstantToken → Bool
  | [] => false
  | t :: ts => (t = name "global" && ts.head? = some colons) || usesGlobal ts

/-- Whether an expression nowhere uses `global::`. -/
def GlobalFree (expression : String) : Prop :=
  ∀ ts ∈ scan expression.toList, usesGlobal ts = false

instance (expression : String) : Decidable (GlobalFree expression) :=
  inferInstanceAs (Decidable (∀ ts ∈ scan expression.toList, usesGlobal ts = false))

end TaskWrappers.ConstantExpr
