import TaskWrappers.Source.Pattern
import TaskWrappers.Source.Reserved

/-!
# The grammar inside declarations

Types, expressions, patterns and statements. Only their extent matters to declarations, so the
rules say what may follow what and leave out how operators bind.
-/

namespace TaskWrappers

inductive Phrase where
  | type
  | bareType
  | typeArguments
  | operandType
  | parameters
  | parameter
  | arguments
  | indices
  | attributes
  | application
  | attributeArgument
  | typeParameters
  | constraints
  | expression
  | condition
  | operand
  | term
  | primary
  | creation
  | lambda
  | query
  | access
  | call
  | operator
  | assignment
  | initializer
  | interpolation
  | pattern
  | plainPattern
  | designation
  | statement
  | command
  | declarators
  | localDeclaration
  | localFunction
  | block
  | functionBody
  | accessors
  | enumMember

namespace Phrase

open Pattern

abbrev P := Pattern Phrase

/-- Words that end a pattern or continue an expression where a name could stand. -/
def connecting : List String :=
  ["and", "or", "when", "with", "select", "where", "into", "on", "equals", "by", "ascending",
    "descending", "orderby", "join", "let", "group"]

def builtinTypes : List String :=
  ["bool", "byte", "char", "decimal", "double", "float", "int", "long", "object", "sbyte",
    "short", "string", "uint", "ulong", "ushort", "void"]

def modifiers : List String :=
  ["abstract", "async", "const", "extern", "file", "fixed", "internal", "new", "override",
    "partial", "private", "protected", "public", "readonly", "required", "sealed", "static",
    "unsafe", "virtual", "volatile"]


def anyOf (words : List String) : P := any (words.map text)

def anyWord : P := kind .word

def name : P := nameOutside reservedWords

def builtinType : P := anyOf builtinTypes

def modifier : P := anyOf modifiers

/-- A parameter's `scoped` belongs to its type unless a reference follows. -/
def parameterModifier : P :=
  any [anyOf ["this", "ref", "out", "in", "readonly"], all ["scoped", ahead "ref"]]

def parens (p : P) : P := all ["(", p, ")"]

def braces (p : P) : P := all ["\x7b", p, "\x7d"]

def rankMark : P := all ["[", many ",", "]"]

/-- A name with its type arguments. -/
def simpleName : P := all [name, maybe (rule typeArguments)]

def dottedName : P := all [simpleName, maybe (all ["::", simpleName]), many (all [".", simpleName])]

def tupleType : P :=
  parens (all [rule type, maybe name, ",", commas (all [rule type, maybe name])])

def functionPointer : P :=
  all ["delegate", "*",
    maybe (all [anyOf ["managed", "unmanaged"], maybe (all ["[", commas name, "]"])]),
    "<", commas (all [many (anyOf ["ref", "in", "out", "readonly"]), rule type]), ">"]

/-- What can follow a type whose question mark makes it nullable; after any other question mark
the branches of a conditional follow. -/
def endsNullable : P :=
  any [anyOf [")", "]", "\x7d", ";", ",", ":", "=", "==", "!=", "&&", "||", "??", "=>"],
    "and", "or", "when"]

/-- What can follow the type arguments of a name in an expression; before anything else the angle
bracket is an operator. -/
def endsArguments : P :=
  any [anyOf ["(", ")", "]", "[", "\x7b", "\x7d", ":", ";", ",", ".", "?", "==", "!=", "|", "^",
    "&&", "||", "&", "=>", "is", "as", "??", ">", "::"], kind .holeClose]

/-- What can follow a pattern. -/
def endsPattern : P :=
  any [anyOf [")", "]", "\x7d", ",", ";", ":", "=>", "&&", "||", "?", "??", "==", "!=", "&", "|",
    "^", "and", "or", "when"], kind .holeClose]

def arm : P :=
  all [rule pattern, maybe (all ["when", rule condition]), "=>", rule expression]

def argument : P :=
  all [maybe (all [name, ":"]),
    any [all [anyOf ["ref", "out", "in"], any [all [rule type, name], rule expression]],
      all [rule type, name, ahead (anyOf [",", ")"])],
      rule expression]]

/-- A name in an expression, where an angle bracket may be an operator. -/
def memberName : P :=
  any [all [anyWord, rule typeArguments, ahead endsArguments], anyWord]

/-- The type or the bare name before `in`. -/
def rangeVariable : P := any [all [name, "in"], all [rule type, name, "in"]]

def positions : P :=
  all ["(", maybe (commas (all [maybe (all [name, ":"]), rule pattern])), ")"]

def properties : P :=
  all ["\x7b", maybe (commas (all [anyWord, many (all [".", anyWord]), ":", rule pattern])),
    maybe ",", "\x7d"]

def expressionOrInitializer : P := any [rule initializer, rule expression]

def catchClause : P :=
  all ["catch", maybe (parens (all [rule type, maybe name])),
    maybe (all ["when", parens (rule expression)]), rule block]

def switchLabel : P :=
  any [all ["default", ":"],
    all ["case", rule pattern, maybe (all ["when", rule condition]), ":"]]

/-- A condition's own line is part of its directive. -/
def conditional (p : P) : P :=
  all [directive "if", many p, many (all [directive "elif", many p]),
    maybe (all [directive "else", many p]), directive "endif"]

def queryClause : P :=
  any [
    all ["from", rangeVariable, rule expression],
    all ["let", name, "=", rule expression],
    all ["where", rule expression],
    all ["join", rangeVariable, rule expression, "on", rule expression, "equals",
      rule expression, maybe (all ["into", name])],
    all ["orderby", commas (all [rule expression, maybe (anyOf ["ascending", "descending"])])],
    all ["select", rule expression],
    all ["group", rule expression, "by", rule expression],
    all ["into", name]]

/-- A shift or comparison that starts with a closing angle bracket. -/
def angles : P := all [">", maybe (tight ">"), maybe (tight ">")]

def arithmetic : List String := ["|", "&", "^", "<<", "+", "-", "*", "/", "%"]

def binary : P :=
  any [anyOf (["||", "&&", "==", "!=", "<=", "<", "??"] ++ arithmetic),
    all [angles, maybe (tight "=")]]

def unary : P := anyOf ["+", "-", "!", "~", "++", "--", "&", "*", "^"]

/-- The operators a type can define for itself. -/
def definable : P :=
  any [anyOf ["+", "-", "!", "~", "++", "--", "true", "false", "*", "/", "%", "&", "|", "^", "<<",
    "==", "!=", "<=", "<"], all [angles, maybe (tight "=")]]

def literal : P :=
  any [kind .number, kind .character, kind .string, anyOf ["true", "false", "null"]]

/-- The rule for each phrase. -/
def grammar : Phrase → P
  | type =>
    all [any [all ["ref", maybe "readonly", rule type],
        all ["scoped", any [dottedName, all ["ref", maybe "readonly", rule type]]],
        rule bareType],
      many (any ["?", "*", rankMark])]
  | bareType => any [functionPointer, builtinType, tupleType, dottedName]
  | typeArguments => all ["<", any [all [many ",", ">"], all [commas (rule type), ">"]]]
  | operandType =>
    all [rule bareType, many (any ["*", rankMark, all ["?", ahead endsNullable]])]
  | parameters => all ["(", maybe (commas (rule parameter)), ")"]
  | parameter =>
    all [many (rule attributes),
      any [all ["params", rule bareType, many "*", any ["?", rankMark],
          many (any ["?", "*", rankMark]), name],
        all [many parameterModifier, any [all [rule type, anyWord], name],
          maybe (all ["=", rule expression])]]]
  | arguments => all ["(", maybe (commas argument), ")"]
  | indices => all ["[", commas argument, "]"]
  | attributes =>
    any [
      all ["[",
        maybe (all [
          anyOf ["field", "event", "method", "param", "property", "return", "type"], ":"]),
        commas (rule application), maybe ",", "]"],
      conditional (rule attributes)]
  | application => all [dottedName, maybe (all ["(", maybe (commas (rule attributeArgument)), ")"])]
  | attributeArgument => all [maybe (all [anyWord, anyOf ["=", ":"]]), rule expression]
  | typeParameters =>
    all ["<", commas (all [many (rule attributes), maybe (anyOf ["in", "out"]), anyWord]), ">"]
  | constraints =>
    all ["where", anyWord, ":",
      commas (any [all ["class", maybe "?"], "struct", "default", all ["new", "(", ")"],
        all ["allows", "ref", "struct"], rule type])]
  | expression => all [rule operand, many (rule operator)]
  | condition => all [rule term, many (rule operator)]
  | operand => any [rule lambda, rule term]
  | term =>
    any [
      all [parens (rule type), absent anyWord, rule term],
      all [parens (rule type), ahead (nameOutside connecting),
        absent (anyOf ["is", "as", "switch"]), rule term],
      all [unary, rule term],
      all ["..", maybe (rule term)],
      all ["await", rule term],
      all [anyOf ["throw", "ref"], rule expression],
      all [rule primary, many (any [rule access, rule call])]]
  | primary =>
    any [literal, rule interpolation, rule creation, rule query,
      all [anyOf ["typeof", "sizeof"], parens (rule type)],
      all ["default", parens (rule type)],
      all [anyOf ["checked", "unchecked"], parens (rule expression)],
      all [many (anyOf ["async", "static"]), "delegate", maybe (rule parameters), rule block],
      anyOf ["this", "base", "default"],
      all ["(", commas argument, ")"],
      all ["[", maybe (commas (rule expression)), maybe ",", "]"],
      all [name, "::", memberName],
      all [name, rule typeArguments, ahead endsArguments],
      name,
      builtinType,
      conditional (rule expression)]
  | creation =>
    any [
      all ["new", "(", maybe (commas argument), ")", maybe (rule initializer)],
      all ["new", rankMark, rule initializer],
      all ["new", rule initializer],
      all ["new", rule bareType, many "*", maybe "?",
        any [all [rule arguments, maybe (rule initializer)], rule initializer,
          all [any [rule indices, rankMark], many (any [rule indices, rankMark, "?"]),
            maybe (rule initializer)]]],
      all ["stackalloc", maybe (rule bareType), any [rule indices, rankMark],
        maybe (rule initializer)]]
  | lambda =>
    all [many (rule attributes), many (anyOf ["async", "static"]),
      any [all [name, "=>"], all [rule parameters, "=>"],
        all [rule type, rule parameters, "=>"]],
      any [rule block, rule expression]]
  | query => all ["from", rangeVariable, rule expression, many queryClause]
  | access =>
    any [all [anyOf [".", "->"], memberName],
      all ["?", tight ".", memberName],
      all ["?", tight "[", commas argument, "]"],
      rule indices,
      "!"]
  | call => any [rule arguments, "++", "--"]
  | operator =>
    any [rule assignment,
      all ["is", rule pattern],
      all ["as", rule operandType],
      all ["switch", "\x7b", maybe (commas arm), maybe ",", "\x7d"],
      all ["with", rule initializer],
      all ["?", rule expression, ":", rule expression],
      all ["..", maybe (rule term)],
      all [binary, rule term]]
  | assignment =>
    all [any [anyOf ["=", "+=", "-=", "*=", "/=", "%=", "&=", "|=", "^=", "<<=", "??="],
        all [angles, tight "="]],
      expressionOrInitializer]
  | initializer => all ["\x7b", maybe (commas expressionOrInitializer), maybe ",", "\x7d"]
  | interpolation =>
    all [kind .quoteOpen,
      many (any [kind .quoteText,
        all [kind .holeOpen, rule expression, maybe (all [",", rule expression]),
          maybe (all [":", many (kind .quoteText)]), kind .holeClose]]),
      kind .quoteClose]
  | pattern => all [rule plainPattern, many (all [anyOf ["and", "or"], rule plainPattern])]
  | plainPattern =>
    any [
      all ["not", rule plainPattern],
      all [any [anyOf ["<=", "<"], all [">", maybe (tight "=")]], rule term],
      all ["var", rule designation],
      all ["..", maybe (rule pattern)],
      all ["[", maybe (commas (rule pattern)), maybe ",", "]", maybe (rule designation)],
      all [rule operandType, positions, maybe properties, maybe (rule designation),
        ahead endsPattern],
      all [positions, maybe properties, maybe (rule designation), ahead endsPattern],
      all [rule operandType, properties, maybe (rule designation)],
      all [properties, maybe (rule designation)],
      all [rule operandType, rule designation],
      all [rule term, many (all [anyOf arithmetic, rule term]), ahead endsPattern],
      rule operandType]
  | designation =>
    any [
      nameOutside (reservedWords ++ connecting),
      all ["(", maybe (commas (rule designation)), ")"]]
  | statement =>
    any [
      rule block,
      ";",
      conditional (rule statement),
      all ["if", parens (rule expression), rule statement, maybe (all ["else", rule statement])],
      all ["while", parens (rule expression), rule statement],
      all ["do", rule statement, "while", parens (rule expression), semicolon],
      all ["for", "(",
        maybe (any [all [rule type, rule declarators, ahead ";"], commas (rule expression)]), ";",
        maybe (rule expression), ";", maybe (commas (rule expression)), ")", rule statement],
      all [maybe "await", "foreach", "(",
        any [all [rule type, rule designation, "in"], all [rule expression, "in"]],
        rule expression, ")", rule statement],
      all ["switch", "(", commas argument, ")",
        braces (many (all [switchLabel, many switchLabel, many (rule statement)]))],
      all ["try", rule block, many catchClause, maybe (all ["finally", rule block])],
      all ["lock", parens (rule expression), rule statement],
      all [maybe "await", "using",
        parens (any [all [rule type, rule declarators, ahead ")"], rule expression]),
        rule statement],
      all ["fixed", parens (all [rule type, rule declarators]), rule statement],
      all [anyOf ["checked", "unchecked", "unsafe"], rule block],
      all ["return", maybe (rule expression), semicolon],
      all ["throw", maybe (rule expression), semicolon],
      all [anyOf ["break", "continue"], semicolon],
      all ["goto", any [all ["case", rule expression], "default", name], semicolon],
      all ["yield", any [all ["return", rule expression], "break"], semicolon],
      all [name, ":", rule statement],
      rule localFunction,
      rule localDeclaration,
      all [rule command, semicolon]]
  | command =>
    any [
      all [rule primary,
        any [
          all [many (rule access), rule call,
            many (all [many (rule access), rule call]),
            maybe (all [many (rule access), rule assignment])],
          all [many (rule access), rule assignment]]],
      rule creation,
      parens (rule expression),
      all ["await", rule term],
      all [unary, rule term, maybe (rule assignment)]]
  | declarators =>
    commas (all [any [name, rule designation], maybe (rule indices),
      maybe (all ["=", expressionOrInitializer])])
  | localDeclaration =>
    all [any [all [maybe "await", "using"], many modifier], rule type, rule declarators, semicolon]
  | localFunction =>
    all [many (rule attributes), many modifier, rule type, anyWord, maybe (rule typeParameters),
      rule parameters, many (rule constraints), rule functionBody]
  | block => braces (many (rule statement))
  | functionBody => any [rule block, all ["=>", rule expression, semicolon], semicolon]
  | accessors =>
    braces (many (all [many (rule attributes), many modifier, anyWord, rule functionBody]))
  | enumMember => all [many (rule attributes), anyWord, maybe (all ["=", rule expression])]

end Phrase

end TaskWrappers
