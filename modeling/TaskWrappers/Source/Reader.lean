import TaskWrappers.Source.Grammar
import TaskWrappers.Source.Tree

/-!
# Reading syntax trees

Items are read in order, each by the first reader that fits. A file in which everything fits is
read as it stands; only if something does not is it read again with a lenient cursor, which
supplies what is missing at the end of a block and otherwise leaves out what it cannot read. The
number handed down bounds how deep a file nests; the length of the file is always enough.
-/

namespace TaskWrappers.Source

open Phrase (P anyWord anyOf simpleName dottedName modifier parameterModifier name conditional
  expressionOrInitializer definable grammar)

/-- Past what a pattern stands for. -/
def skip (n : Nat) (p : P) (c : Cursor) : Option Cursor :=
  p.read grammar n c

/-- The text of what a pattern stands for. -/
def textOf (n : Nat) (p : P) (c : Cursor) : Option (String × Cursor) := do
  let c' ← skip n p c
  return (c.textTo c', c')

/-- As many as can be read. -/
def manyOf {α : Type} (step : Cursor → Option (α × Cursor)) : Nat → Cursor → List α × Cursor
  | 0, c => ([], c)
  | n + 1, c =>
    match step c with
    | none => ([], c)
    | some (a, c) =>
      let (as, c) := manyOf step n c
      (a :: as, c)

/-- One or more, with commas between. -/
def commasOf {α : Type} (step : Cursor → Option (α × Cursor)) (n : Nat) (c : Cursor) :
    Option (List α × Cursor) := do
  let (a, c) ← step c
  let (as, c) := manyOf (fun c => do step (← skip n "," c)) n c
  return (a :: as, c)

def application (n : Nat) (c : Cursor) : Option (Application × Cursor) := do
  let (name, c₁) ← textOf n dottedName c
  match skip n "(" c₁ with
  | none => return (⟨name, [], c.extentTo c₁⟩, c₁)
  | some c₂ =>
    let (arguments, c₂) := (commasOf (textOf n (.rule .attributeArgument)) n c₂).getD ([], c₂)
    let c₃ ← skip n ")" c₂
    return (⟨name, arguments, c.extentTo c₃⟩, c₃)

/-- One bracketed list; a list that depends on a condition is passed over. -/
def attributeList (n : Nat) (c : Cursor) : Option (List Application × Cursor) := do
  if c.isAt "[" then
    let c' ← skip n (.rule .attributes) c
    let c₁ ← skip n (.all ["[", .maybe (.all [anyWord, ":"])]) c
    let (applications, _) ← commasOf (application n) n c₁
    return (applications, c')
  else
    let c' ← skip n (.rule .attributes) c
    return ([], c')

def attributeLists (n : Nat) (c : Cursor) : List Application × Cursor :=
  let (lists, c) := manyOf (attributeList n) n c
  (lists.flatten, c)

def parameterForm (n : Nat) (c : Cursor) : Option (Option ParameterForm × Cursor) := do
  let end' ← skip n (.rule .parameter) c
  let (attributes, c) := attributeLists n c
  if c.isAt "params" then return (none, end')
  let (modifiers, c) := manyOf (textOf n parameterModifier) n c
  let typed := do
    let (type, c) ← textOf n (.rule .type) c
    let (name, _) ← textOf n anyWord c
    return (type, name)
  let (type, name) ← typed <|> (textOf n anyWord c).map fun (name, _) => ("", name)
  return (some ⟨name, type, attributes, modifiers⟩, end')

def parameterForms (n : Nat) (c : Cursor) : Option (List ParameterForm × Cursor) := do
  let end' ← skip n (.rule .parameters) c
  let c ← skip n "(" c
  let forms := ((commasOf (parameterForm n) n c).map (·.1)).getD []
  return (forms.filterMap id, end')

/-- The number of type parameters between angle brackets. -/
def arity (n : Nat) (c : Cursor) : Option (Nat × Cursor) := do
  let end' ← skip n (.rule .typeParameters) c
  let c ← skip n "<" c
  let one := .all [.many (.rule .attributes), .maybe (anyOf ["in", "out"]), anyWord]
  let (parameters, _) ← commasOf (textOf n one) n c
  return (parameters.length, end')

/-- The comments and directives in the gap before the next lexeme. -/
def notes (c : Cursor) : List String :=
  ((c.rest.head?.map (·.gap)).getD []).filterMap fun
    | .blank _ => none
    | .comment t => some t
    | .directive t => some t

def baseEntry (n : Nat) (c : Cursor) : Option (List String × Cursor) := do
  let before := notes c
  let (text, c) ← textOf n (.all [.rule .type, .maybe (.rule .arguments)]) c
  return (before ++ [text] ++ (if c.isAt "," then notes c else []), c)

def baseList (n : Nat) (c : Cursor) : Option (List String × Cursor) := do
  let c ← skip n ":" c
  let (entries, c) ← commasOf (baseEntry n) n c
  return (entries.flatten, c)

/-- What can stand between a type's name and its body. -/
inductive HeadPart where
  | arity (count : Nat)
  | bases (texts : List String)
  | other

def headPart (n : Nat) (c : Cursor) : Option (HeadPart × Cursor) :=
  (arity n c).map (fun (k, c) => (.arity k, c))
    <|> (baseList n c).map (fun (b, c) => (.bases b, c))
    <|> (skip n (.any [.rule .parameters, .rule .constraints]) c).map (.other, ·)

/-- The words that introduce a type. -/
def typeKind (n : Nat) (c : Cursor) : Option (TypeKind × Cursor) :=
  let words (ws : List P) (k : TypeKind) : Option (TypeKind × Cursor) :=
    (skip n (.all ws) c).map (k, ·)
  let afterName : P := anyOf ["(", "\x7b", "\x7d", ":", ";", "<", "where"]
  words ["class"] .class
    <|> words [.maybe "ref", "struct"] .struct
    <|> words ["interface"] .interface
    <|> words ["enum"] .enum
    <|> words ["record", "struct"] .recordStruct
    <|> words ["record", "class"] .record
    <|> words ["record", .ahead (.all [anyWord, afterName])] .record

def delegateForm (n : Nat) (attributes : List Application) (modifiers : List String)
    (start c : Cursor) : Option (Item × Cursor) := do
  let c ← skip n (.all ["delegate", .rule .type]) c
  let (name, c) ← textOf n anyWord c
  let (arity, c) := (arity n c).getD (0, c)
  let c ← skip n (.all [.rule .parameters, .many (.rule .constraints), .semicolon]) c
  return (.type ⟨name, .delegate, arity, modifiers, attributes, [], start.extentTo c⟩ [], c)

/-- A dotted interface name before a member's own name. -/
def explicitInterface : P := .many (.all [simpleName, ".", .ahead anyWord])

def methodForm (n : Nat) (attributes : List Application) (modifiers : List String)
    (start c : Cursor) : Option (Item × Cursor) := do
  let (returnType, c) ← textOf n (.rule .type) c
  let c ← skip n explicitInterface c
  let (name, c) ← textOf n anyWord c
  let c ← skip n (.maybe (.rule .typeParameters)) c
  let (parameters, c) ← parameterForms n c
  let c ← skip n (.all [.many (.rule .constraints), .rule .functionBody]) c
  return (.method ⟨name, returnType, parameters, attributes, modifiers, start.extentTo c⟩, c)

def declarator : P :=
  .all [.any [anyWord, .rule .designation], .maybe (.rule .indices),
    .maybe (.all ["=", expressionOrInitializer])]

def fieldForm (n : Nat) (modifiers : List String) (c : Cursor) : Option (Item × Cursor) := do
  let (type, c) ← textOf n (.rule .type) c
  let (declarators, c) ← commasOf (textOf n declarator) n c
  let c ← skip n .semicolon c
  return (.field ⟨type, declarators, modifiers⟩, c)

/-- Members that declare nothing of interest, after their attributes and modifiers. -/
def plainMember : P :=
  .any [
    .all ["event", .rule .type, .any [
      .all [explicitInterface, anyWord, .rule .accessors],
      .all [.rule .declarators, .semicolon]]],
    .all [anyOf ["implicit", "explicit"], explicitInterface, "operator", .maybe "checked",
      .rule .type, .rule .parameters, .rule .functionBody],
    .all ["~", anyWord, .rule .parameters, .rule .functionBody],
    .all [name, .rule .parameters, .maybe (.all [":", anyOf ["base", "this"], .rule .arguments]),
      .rule .functionBody],
    .all [.rule .type, explicitInterface, "operator", .maybe "checked", definable,
      .rule .parameters, .rule .functionBody],
    .all [.rule .type, explicitInterface, "this", "[", Pattern.commas (.rule .parameter), "]",
      .any [.rule .accessors, .all ["=>", .rule .expression, .semicolon]]],
    .all [.rule .type, explicitInterface, anyWord, .any [
      .all [.rule .accessors, .maybe (.all ["=", .rule .expression, .semicolon])],
      .all ["=>", .rule .expression, .semicolon]]]]

/-- The members of an enumeration, some of which may depend on a condition. -/
def enumBody : P :=
  let entry : P := .any [.rule .enumMember, conditional (.all [.rule .enumMember, .maybe ","])]
  .all [.maybe (Pattern.commas entry), .maybe ","]

/-- Where items stand: directly in a file or in the body of a namespace or type. -/
inductive Place where
  | file
  | body
  deriving DecidableEq

def usingLine (n : Nat) (c : Cursor) : Option (Item × Cursor) := do
  let aliased : P := .all [.maybe "unsafe", anyWord, "=", .rule .type]
  let target : P := .all [.maybe "static", .maybe "unsafe", dottedName]
  let (text, c) ← textOf n
    (.all [.maybe "global", "using",
      .any [.all [aliased, .semicolon], .all [target, .semicolon]]]) c
  return (.usingLine text, c)

/-- What only a file itself can hold. -/
def fileOnly : P :=
  .any [
    .all ["extern", "alias", anyWord, ";"],
    .all ["[", anyOf ["assembly", "module"], ":", Pattern.commas (.rule .application), .maybe ",",
      "]"],
    .rule .statement]

/-- Past a closing brace, which a lenient cursor supplies at the end of the file. -/
def closeBody (c : Cursor) : Option Cursor :=
  match c.rest with
  | [] => if c.lenient then some (c.damaged ⟨.zero, .zero⟩) else none
  | _ => c.next (·.isSpelled "\x7d")

/-- Whether nothing more can follow among the items of a place. -/
def atEnd (place : Place) (c : Cursor) : Bool :=
  match c.rest with
  | [] => true
  | l :: _ => l.kind == .conditional && l.directiveWord != "if"
    || place = .body && l.isSpelled "\x7d"

/-- Leaves out one lexeme. -/
def leaveOut (c : Cursor) : Cursor :=
  match c.rest with
  | [] => c
  | l :: ls => { c with rest := ls }.damaged ⟨l.start, l.stop⟩

/-- How the items of a place are read. -/
abbrev ItemsReader := Place → Cursor → List Item × Cursor

def spaceItem (n : Nat) (items : ItemsReader) (c : Cursor) : Option (Item × Cursor) := do
  let c ← skip n "namespace" c
  let (name, c) ← textOf n dottedName c
  match skip n "\x7b" c with
  | none => return (.spaceLine name, ← skip n ";" c)
  | some c =>
    let (body, c) := items .body c
    let c ← closeBody c
    return (.spaceBlock name body, (skip n ";" c).getD c)

/-- The branches after the first, and the end of the conditional. -/
def branches (items : Cursor → List Item × Cursor) : Nat → Cursor → Option (List Item × Cursor)
  | 0, _ => none
  | n + 1, c =>
    match skip 1 (.directive "endif") c, skip 1 (.directive "elif") c,
      skip 1 (.directive "else") c with
    | some c, _, _ => some ([], c)
    | _, some c, _ => do
      let (body, c) := items c
      let (rest, c) ← branches items n c
      return ([.conditional (body ++ rest)], c)
    | _, _, some c => do
      let (body, c) := items c
      return ([.conditional body], ← skip 1 (.directive "endif") c)
    | none, none, none => none

def conditionalItem (n : Nat) (items : Cursor → List Item × Cursor) (c : Cursor) :
    Option (Item × Cursor) := do
  let c ← skip n (.directive "if") c
  let (body, c) := items c
  let (rest, c) ← branches items n c
  return (.conditional (body ++ rest), c)

def typeItem (n : Nat) (items : ItemsReader) (attributes : List Application)
    (modifiers : List String) (start c : Cursor) : Option (Item × Cursor) := do
  let (kind, c) ← typeKind n c
  let (name, c) ← textOf n anyWord c
  let (parts, c) := manyOf (headPart n) n c
  let arity := (parts.findSome? fun | .arity k => some k | _ => none).getD 0
  let bases := (parts.findSome? fun | .bases b => some b | _ => none).getD []
  let form (c : Cursor) : TypeForm :=
    ⟨name, kind, arity, modifiers, attributes, bases, start.extentTo c⟩
  match skip n "\x7b" c with
  | none =>
    let c ← skip n .semicolon c
    return (.type (form c) [], c)
  | some c =>
    let (members, c) := if kind = .enum then ([], (skip n enumBody c).getD c) else items .body c
    let c ← closeBody c
    return (.type (form c) members, (skip n ";" c).getD c)

/-- A type with its attributes and modifiers. -/
def typed (n : Nat) (items : ItemsReader) (start : Cursor) : Option (Item × Cursor) :=
  let (attributes, c) := attributeLists n start
  let (modifiers, c) := manyOf (textOf n modifier) n c
  typeItem n items attributes modifiers start c <|> delegateForm n attributes modifiers start c

/-- A type or member with its attributes and modifiers. -/
def declared (n : Nat) (items : ItemsReader) (start : Cursor) : Option (Item × Cursor) :=
  typed n items start <|>
    let (attributes, c) := attributeLists n start
    let (modifiers, c) := manyOf (textOf n modifier) n c
    methodForm n attributes modifiers start c
      <|> fieldForm n modifiers c
      <|> (skip n plainMember c).map (.other, ·)

def item (n : Nat) (items : ItemsReader) (place : Place) (c : Cursor) : Option (Item × Cursor) :=
  usingLine n c
    <|> spaceItem n items c
    <|> conditionalItem n (items place) c
    <|> (if place = .body then declared n items c
      else typed n items c <|> (skip n fileOnly c).map (.other, ·))

def items : Nat → ItemsReader
  | 0, _, c => ([], c)
  | n + 1, place, c =>
    match item (64 * n) (items n) place c with
    | some (i, c) =>
      let (is, c) := items n place c
      (i :: is, c)
    | none => if c.lenient && !atEnd place c then items n place (leaveOut c) else ([], c)

/-- The items of a whole file. A lenient cursor also leaves out a directive that ends a condition
where none is open; the first number bounds how often. -/
def fileItems : Nat → Nat → Cursor → List Item × Cursor
  | 0, n, c => items n .file c
  | k + 1, n, c =>
    let (is, c) := items n .file c
    if c.lenient && !c.rest.isEmpty then
      let (js, c) := fileItems k n (leaveOut c)
      (is ++ js, c)
    else (is, c)

/-- The tree of a run of lexemes and what is left of it. -/
def treeFrom (lexemes : List Lexeme) (lenient : Bool) : Tree × Cursor :=
  let n := lexemes.length
  let (is, c) := fileItems n (2 * n + 2) ⟨lexemes, lenient, none⟩
  (⟨is, c.damage⟩, c)

/-- The tree of a source text. -/
def Tree.read (source : String) : Tree :=
  let lexemes := Lexeme.scan source
  let (tree, c) := treeFrom lexemes false
  if c.rest.isEmpty then tree else (treeFrom lexemes true).1

end TaskWrappers.Source
