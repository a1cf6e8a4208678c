import TaskWrappers.Text.Cut

/-!
# Project files

What a project file says about the code in it: the modules it refers to, and whether common
namespaces are imported into every file. The text is searched for the elements that say so; it is
not read as a document.
-/

namespace TaskWrappers

structure Project where
  path : Option String
  modules : List String
  implicitUsings : Bool
  deriving DecidableEq

inductive ReferenceKind where
  | package
  | assembly
  | project
  deriving DecidableEq

namespace ReferenceKind

def element : ReferenceKind → String
  | package => "PackageReference"
  | assembly => "Reference"
  | project => "ProjectReference"

def all : List ReferenceKind := [package, assembly, project]

/-- The name of the module that an `Include` attribute's value refers to. -/
def moduleName (kind : ReferenceKind) (value : List Char) : List Char :=
  let value := Text.trim value
  match kind with
  | package => value
  | assembly => Text.trim (value.takeWhile (· != ','))
  | project =>
    let file := ((Text.cutLast? (fun c => c == '/' || c == '\\') value).map (·.2)).getD value
    ((Text.cutLast? (· == '.') file).map (·.1)).getD file

end ReferenceKind

namespace Project

open Text

/-- Namespaces that are imported into every file where a project asks for it. -/
def implicitSpaces : List String :=
  ["System", "System.Collections.Generic", "System.IO", "System.Linq", "System.Net.Http",
    "System.Threading", "System.Threading.Tasks"]

def dropExact? (word cs : List Char) : Option (List Char) :=
  if word.isPrefixOf cs then some (cs.drop word.length) else none

/-- The value of an `Include` attribute that starts here, and what follows it. -/
def includeHere? (cs : List Char) : Option (List Char × List Char) := do
  let cs ← dropExact? "Include".toList cs
  let cs ← dropExact? ['='] (trimStart cs)
  let cs ← dropExact? ['"'] (trimStart cs)
  let (value, rest) ← cut? (· == '"') cs
  if value.isEmpty then none else some (value, rest)

/-- The value of the first `Include` attribute before the end of the element, given the character
before. The attribute's name starts at a word boundary. -/
def includeValue? (before : Char) : List Char → Option (List Char × List Char)
  | [] => none
  | c :: cs =>
    match if isWord before then none else includeHere? (c :: cs) with
    | some found => some found
    | none => if c = '>' then none else includeValue? c cs

/-- A reference of one kind that starts here. -/
def referenceOf? (kind : ReferenceKind) (cs : List Char) : Option (List Char × List Char) := do
  let cs ← dropExact? ('<' :: kind.element.toList) cs
  if (cs.head?.map isWord).getD false then none
  else
    let (value, rest) ← includeValue? 'e' cs
    return (kind.moduleName value, rest)

def reference? (cs : List Char) : Option (List Char × List Char) :=
  ReferenceKind.all.findSome? (referenceOf? · cs)

theorem length_dropExact? {word cs rest : List Char} (h : dropExact? word cs = some rest) :
    rest.length ≤ cs.length := by
  simp only [dropExact?] at h
  split at h
  · cases h; simp
  · cases h

theorem length_includeHere? {cs v rest : List Char} (h : includeHere? cs = some (v, rest)) :
    rest.length < cs.length := by
  obtain ⟨c₁, h₁, h⟩ := Option.bind_eq_some_iff.1 h
  obtain ⟨c₂, h₂, h⟩ := Option.bind_eq_some_iff.1 h
  obtain ⟨c₃, h₃, h⟩ := Option.bind_eq_some_iff.1 h
  obtain ⟨⟨w, r⟩, h₄, h⟩ := Option.bind_eq_some_iff.1 h
  simp only at h
  split at h
  · cases h
  · cases h
    have := length_dropExact? h₁
    have := length_dropExact? h₂
    have := length_dropExact? h₃
    have := length_cut? h₄
    have := length_trimStart c₁
    have := length_trimStart c₂
    omega

theorem length_includeValue? {before : Char} {cs v rest : List Char}
    (h : includeValue? before cs = some (v, rest)) : rest.length < cs.length := by
  induction cs generalizing before with
  | nil => cases h
  | cons c cs ih =>
    simp only [includeValue?] at h
    split at h
    · rename_i found hf
      cases h
      split at hf
      · cases hf
      · exact length_includeHere? hf
    · split at h
      · cases h
      · exact Nat.lt_succ_of_lt (ih h)

theorem length_referenceOf? {kind : ReferenceKind} {cs v rest : List Char}
    (h : referenceOf? kind cs = some (v, rest)) : rest.length < cs.length := by
  obtain ⟨c₁, h₁, h⟩ := Option.bind_eq_some_iff.1 h
  simp only at h
  split at h
  · cases h
  · obtain ⟨⟨w, r⟩, h₂, h⟩ := Option.bind_eq_some_iff.1 h
    cases h
    have : r.length < c₁.length := length_includeValue? h₂
    exact Nat.lt_of_lt_of_le this (length_dropExact? h₁)

theorem length_reference? {cs v rest : List Char} (h : reference? cs = some (v, rest)) :
    rest.length < cs.length := by
  obtain ⟨kind, -, hk⟩ := List.exists_of_findSome?_eq_some h
  exact length_referenceOf? hk

/-- The modules referred to, from left to right; a reference starts after the one before ends. -/
def references (cs : List Char) : List (List Char) :=
  match cs with
  | [] => []
  | c :: tail =>
    match _h : reference? (c :: tail) with
    | some (name, rest) => name :: references rest
    | none => references tail
termination_by cs.length
decreasing_by
  · exact length_reference? _h
  · simp

/-- The lower case form of a letter. The long s and the Kelvin sign are forms of letters too. -/
def foldCase (c : Char) : Char :=
  if c = '\u017f' then 's' else if c = '\u212a' then 'k' else lowerAscii c

def dropFolded? (word cs : List Char) : Option (List Char) :=
  if word = (cs.take word.length).map foldCase then some (cs.drop word.length) else none

def isFoldedLetter (c : Char) : Bool :=
  'a' ≤ foldCase c && foldCase c ≤ 'z'

/-- The word in an element for implicit usings that starts here. -/
def switchHere? (cs : List Char) : Option (List Char) := do
  let cs ← dropFolded? "<implicitusings>".toList cs
  let cs := trimStart cs
  let word := cs.takeWhile isFoldedLetter
  let _ ← dropFolded? "</implicitusings>".toList (trimStart (cs.dropWhile isFoldedLetter))
  if word.isEmpty then none else some word

/-- The word in the first element for implicit usings that holds just a word. -/
def switch? : List Char → Option (List Char)
  | [] => none
  | c :: cs =>
    match switchHere? (c :: cs) with
    | some word => some word
    | none => switch? cs

def isOn (word : List Char) : Bool :=
  let word := word.map lowerAscii
  word == "enable".toList || word == "true".toList

/-- What a project file's text says. -/
def read (text : String) : Project :=
  let cs := text.toList
  ⟨none, ((references cs).filter (!·.isEmpty)).map .ofList, ((switch? cs).map isOn).getD false⟩

/-- The namespaces imported into every file of the project. -/
def imports (p : Project) : List String :=
  if p.implicitUsings then implicitSpaces else []

end Project

end TaskWrappers
