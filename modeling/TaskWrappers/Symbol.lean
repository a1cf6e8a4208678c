import TaskWrappers.Model
import TaskWrappers.TypeExpr.Reader

/-!
# Resolved types

The type that a reference denotes in a scope, with the display under which it can be found from
anywhere. Every part must be known: one unknown or omitted type argument leaves the whole reference
unresolved. An alias stands for a type only where nothing else of its name is in sight, and what it
names is read without any directives but the global ones.
-/

namespace TaskWrappers

/-- A type as it is known everywhere. `space` is the namespace that directly contains it. -/
structure Symbol where
  display : String
  space : Option String
  isReference : Bool
  isNullable : Bool
  deriving DecidableEq

namespace Symbol

/-- The nullable form, which still names the same type. -/
def toNullable (s : Symbol) : Symbol :=
  if s.isNullable then s else { s with display := s.display ++ "?", isNullable := true }

def systemSpace : String := "System"

def ofKeywordType (k : KeywordType) : Symbol :=
  ⟨k.keyword, some systemSpace, k.isReference, false⟩

def ofKeyword? (word : String) : Option Symbol :=
  if word = "dynamic" then some ⟨"dynamic", none, true, false⟩
  else (Catalog.ofKeyword? word).map ofKeywordType

def arrayOf (element : Symbol) (commas : Nat) : Symbol :=
  ⟨element.display ++ "[" ++ "".pushn ',' commas ++ "]", none, true, false⟩

/-- The tuple whose elements are displayed as given. -/
def tupleOf (elements : List String) : Symbol :=
  ⟨"(" ++ ", ".intercalate elements ++ ")", some systemSpace, false, false⟩

/-- A known type with its arguments. One that a keyword names is displayed as the keyword, and a
nullable value type as the value type with its mark. -/
def ofKnown (t : KnownType) (args : List Symbol) : Symbol :=
  match args with
  | [] =>
    match Catalog.ofFullName? t.fullName with
    | some k => ofKeywordType k
    | none => ⟨t.fullName, t.space, t.isReference, false⟩
  | arg :: rest =>
    if t.fullName = "System.Nullable" ∧ rest.isEmpty ∧ !arg.isReference then arg.toNullable
    else
      ⟨t.fullName ++ "<" ++ ", ".intercalate (args.map (·.display)) ++ ">", t.space,
        t.isReference, false⟩

end Symbol

namespace Model

/-- The type of a name written without or with a qualifier. -/
def known? (m : Model) (s : Scope) (qualifier : Option String) (name : String) (arity : Nat) :
    Option KnownType :=
  match qualifier with
  | none => (m.candidates s name).findSome? (m.type? · arity)
  | some q =>
    if q = TypeExpr.globalQualifier then m.type? name arity
    else (Using.aliasTarget? s.usings q).bind fun target => m.type? (target ++ "." ++ name) arity

section Resolve

-- A name that denotes no declared type is resolved as an alias.
variable (aliased? : String → Option Symbol) (m : Model) (s : Scope)

/-- The symbol of a name with its arguments resolved. -/
def named (qualifier : Option String) (outer : List Segment) (last : Segment)
    (args : List Symbol) : Option Symbol :=
  if outer.any Segment.isGeneric then none
  else
    match m.known? s qualifier (Scope.dotted ((outer ++ [last]).map Segment.name)) args.length with
    | some t => some (.ofKnown t args)
    | none =>
      if qualifier.isNone && outer.isEmpty && !last.isGeneric then aliased? last.name else none

mutual

def resolveWith : TypeExpr → Option Symbol
  | .keyword word => Symbol.ofKeyword? word
  | .named qualifier outer (.plain name) => named aliased? m s qualifier outer (.plain name) []
  | .named qualifier outer (.generic name first rest) => do
    let arg ← resolveArg first
    let args ← resolveArgs rest
    named aliased? m s qualifier outer (.generic name first rest) (arg :: args)
  | .nullable inner => (resolveWith inner).map .toNullable
  | .array element commas => (resolveWith element).map (.arrayOf · commas)
  | .tuple first second rest => do
    let a ← displayElement first
    let b ← displayElement second
    let more ← displayElements rest
    return .tupleOf (a :: b :: more)

def resolveArg : TypeArg → Option Symbol
  | .omitted => none
  | .given type => resolveWith type

def resolveArgs : List TypeArg → Option (List Symbol)
  | [] => some []
  | arg :: args => do
    let a ← resolveArg arg
    let as ← resolveArgs args
    return a :: as

/-- A tuple's element with its type displayed in full. -/
def displayElement : TupleElement → Option String
  | ⟨type, name⟩ => (resolveWith type).map fun t =>
    match name with
    | none => t.display
    | some n => t.display ++ " " ++ n

def displayElements : List TupleElement → Option (List String)
  | [] => some []
  | e :: es => do
    let d ← displayElement e
    let ds ← displayElements es
    return d :: ds

end

end Resolve

section Monotone

variable {f g : String → Option Symbol} {m : Model} {s : Scope}

theorem named_mono (hfg : ∀ name sym, f name = some sym → g name = some sym)
    {qualifier : Option String} {outer : List Segment} {last : Segment} {args : List Symbol}
    {sym : Symbol} (h : named f m s qualifier outer last args = some sym) :
    named g m s qualifier outer last args = some sym := by
  unfold named at h ⊢
  split at h
  · cases h
  · rw [if_neg ‹_›]
    split at h
    · exact h
    · split at h
      · rw [if_pos ‹_›]
        exact hfg _ _ h
      · cases h

mutual

/-- Where more names are answered, whatever was resolved before still is, to the same symbol. -/
theorem resolveWith_mono (hfg : ∀ name sym, f name = some sym → g name = some sym) :
    ∀ (type : TypeExpr) {sym : Symbol},
      resolveWith f m s type = some sym → resolveWith g m s type = some sym
  | .keyword word, sym, h => by
    rw [resolveWith] at h ⊢
    exact h
  | .named qualifier outer (.plain name), sym, h => by
    rw [resolveWith] at h ⊢
    exact named_mono hfg h
  | .named qualifier outer (.generic name first rest), sym, h => by
    rw [resolveWith] at h ⊢
    obtain ⟨x, hx, h⟩ := Option.bind_eq_some_iff.1 h
    obtain ⟨xs, hxs, h⟩ := Option.bind_eq_some_iff.1 h
    rw [resolveArg_mono hfg first hx, resolveArgs_mono hfg rest hxs]
    exact named_mono hfg h
  | .nullable inner, sym, h => by
    rw [resolveWith] at h ⊢
    obtain ⟨x, hx, rfl⟩ := Option.map_eq_some_iff.1 h
    rw [resolveWith_mono hfg inner hx]
    rfl
  | .array element commas, sym, h => by
    rw [resolveWith] at h ⊢
    obtain ⟨x, hx, rfl⟩ := Option.map_eq_some_iff.1 h
    rw [resolveWith_mono hfg element hx]
    rfl
  | .tuple first second rest, sym, h => by
    rw [resolveWith] at h ⊢
    obtain ⟨x, hx, h⟩ := Option.bind_eq_some_iff.1 h
    obtain ⟨y, hy, h⟩ := Option.bind_eq_some_iff.1 h
    obtain ⟨zs, hzs, h⟩ := Option.bind_eq_some_iff.1 h
    rw [displayElement_mono hfg first hx, displayElement_mono hfg second hy,
      displayElements_mono hfg rest hzs]
    exact h

theorem resolveArg_mono (hfg : ∀ name sym, f name = some sym → g name = some sym) :
    ∀ (arg : TypeArg) {sym : Symbol},
      resolveArg f m s arg = some sym → resolveArg g m s arg = some sym
  | .omitted, sym, h => by
    rw [resolveArg] at h
    cases h
  | .given type, sym, h => by
    rw [resolveArg] at h ⊢
    exact resolveWith_mono hfg type h

theorem resolveArgs_mono (hfg : ∀ name sym, f name = some sym → g name = some sym) :
    ∀ (args : List TypeArg) {syms : List Symbol},
      resolveArgs f m s args = some syms → resolveArgs g m s args = some syms
  | [], syms, h => by
    rw [resolveArgs] at h ⊢
    exact h
  | arg :: args, syms, h => by
    rw [resolveArgs] at h ⊢
    obtain ⟨x, hx, h⟩ := Option.bind_eq_some_iff.1 h
    obtain ⟨xs, hxs, h⟩ := Option.bind_eq_some_iff.1 h
    rw [resolveArg_mono hfg arg hx, resolveArgs_mono hfg args hxs]
    exact h

theorem displayElement_mono (hfg : ∀ name sym, f name = some sym → g name = some sym) :
    ∀ (e : TupleElement) {shown : String},
      displayElement f m s e = some shown → displayElement g m s e = some shown
  | ⟨type, name⟩, shown, h => by
    rw [displayElement] at h ⊢
    obtain ⟨x, hx, rfl⟩ := Option.map_eq_some_iff.1 h
    rw [resolveWith_mono hfg type hx]
    rfl

theorem displayElements_mono (hfg : ∀ name sym, f name = some sym → g name = some sym) :
    ∀ (es : List TupleElement) {shown : List String},
      displayElements f m s es = some shown → displayElements g m s es = some shown
  | [], shown, h => by
    rw [displayElements] at h ⊢
    exact h
  | e :: es, shown, h => by
    rw [displayElements] at h ⊢
    obtain ⟨x, hx, h⟩ := Option.bind_eq_some_iff.1 h
    obtain ⟨xs, hxs, h⟩ := Option.bind_eq_some_iff.1 h
    rw [displayElement_mono hfg e hx, displayElements_mono hfg es hxs]
    exact h

end

end Monotone

/-- What a file's own directive or else a global one gives a name to. -/
def aliasTarget? (m : Model) (s : Scope) (name : String) : Option String :=
  Using.aliasTarget? s.usings name <|> Using.aliasTarget? m.globalUsings name

/-- The type an alias stands for where other aliases stand for what they do: its target, read in the
global scope. -/
def followAlias (m : Model) (aliased? : Scope → String → Option Symbol) (s : Scope)
    (name : String) : Option Symbol := do
  let target ← m.aliasTarget? s name
  let type ← (TypeExpr.read target).toOption
  resolveWith (aliased? .global) m .global type

theorem followAlias_mono {m : Model} {f g : Scope → String → Option Symbol}
    (hfg : ∀ s name sym, f s name = some sym → g s name = some sym) {s : Scope} {name : String}
    {sym : Symbol} (h : m.followAlias f s name = some sym) : m.followAlias g s name = some sym := by
  obtain ⟨target, htarget, h⟩ := Option.bind_eq_some_iff.1 h
  obtain ⟨type, htype, h⟩ := Option.bind_eq_some_iff.1 h
  rw [followAlias, htarget, Option.bind_eq_bind, Option.bind_some, htype, Option.bind_eq_bind,
    Option.bind_some]
  exact resolveWith_mono (hfg .global) type h

/-- Following an alias keeps every relation of results that has the ones of a partial result: no
result is related to any other, and a type only to itself. -/
theorem followAlias_related (m : Model) {related : Option Symbol → Option Symbol → Prop}
    (hrefl : ∀ found, related found found) (hnone : ∀ found, related none found)
    (hsome : ∀ sym found, related (some sym) found → found = some sym)
    (f g : Scope → String → Option Symbol) (hfg : ∀ s name, related (f s name) (g s name))
    (s : Scope) (name : String) : related (m.followAlias f s name) (m.followAlias g s name) := by
  have hle : ∀ s name sym, f s name = some sym → g s name = some sym := by
    intro s name sym h
    have hrelated := hfg s name
    rw [h] at hrelated
    exact hsome sym _ hrelated
  cases h : m.followAlias f s name with
  | none => exact hnone _
  | some sym =>
    rw [followAlias_mono hle h]
    exact hrefl _

/-- The type an alias stands for. Nothing bounds how many aliases are followed, and one that leads
back to itself is followed without end. Its value is `none` then, which is not an answer that a pass
ever gets: such a pass does not end, and has no outcome. -/
def resolveAlias (m : Model) (s : Scope) (name : String) : Option Symbol :=
  m.followAlias (resolveAlias m) s name
partial_fixpoint monotonicity m.followAlias_related (fun _ => .refl) (fun _ => .bot)
  (fun _ _ hrelated => by cases hrelated; rfl)

/-- The type that an expression denotes in a scope. -/
def resolve (m : Model) (s : Scope) (type : TypeExpr) : Option Symbol :=
  resolveWith (m.resolveAlias s) m s type

def resolveText (m : Model) (s : Scope) (text : String) : Option Symbol :=
  (TypeExpr.read text).toOption.bind (m.resolve s)

end Model

end TaskWrappers
