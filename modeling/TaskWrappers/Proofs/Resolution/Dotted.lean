import TaskWrappers.Proofs.ConstantExpr.Path
import TaskWrappers.Proofs.Resolution.Canonical
import TaskWrappers.Proofs.Resolution.Lookup

/-!
# Dotted references

The first part of a dotted reference is looked up near its scope, in what is imported statically and
among the aliases, but in no imported namespace. So where none of these offers a type called by the
first part, a constant or a type inside such a type of a namespace `N` is not found, whether `N` is
imported or not, and the reference stands for the same as the one in full only where that stands for
nothing (`Model.dotted_eq_iff`).
-/

namespace TaskWrappers

open Text

namespace Model

section Build

variable {files : List SourceFile} {implicitSpaces : List String}

theorem ofDecl_mem_build {f : SourceFile} (hf : f ∈ files) {d : TypeDecl} (hd : d ∈ f.types) :
    .ofDecl d ∈ (build files implicitSpaces).types :=
  List.mem_append_left _ (List.mem_reverse.2
    (List.mem_flatMap.2 ⟨f, hf, List.mem_map_of_mem hd⟩))

theorem exists_of_constant?_build {name : String} {c : KnownConstant}
    (h : (build files implicitSpaces).constant? name = some c) :
    ∃ f ∈ files, ∃ d ∈ f.types, ∃ x ∈ d.constants, name = d.fullName ++ "." ++ x.name := by
  have hname : c.fullName = name := by simpa using List.find?_some h
  obtain ⟨f, hf, hc⟩ := List.mem_flatMap.1 (List.mem_reverse.1 (List.mem_of_find?_eq_some h))
  obtain ⟨d, hd, hc⟩ := List.mem_flatMap.1 hc
  obtain ⟨x, hx, rfl⟩ := List.mem_map.1 hc
  exact ⟨f, hf, d, hd, x, hx, hname.symm⟩

/-- A constant is declared inside a type. -/
theorem constant?_build_eq_none {outer name : String} (hname : '.' ∉ name.toList)
    (hconstants : ∀ f ∈ files, ∀ d ∈ f.types, ∀ x ∈ d.constants, '.' ∉ x.name.toList)
    (houter : ∀ t ∈ (build files implicitSpaces).types, t.fullName ≠ outer) :
    (build files implicitSpaces).constant? (outer ++ "." ++ name) = none := by
  cases hc : (build files implicitSpaces).constant? (outer ++ "." ++ name) with
  | none => rfl
  | some c =>
    obtain ⟨f, hf, d, hd, x, hx, heq⟩ := exists_of_constant?_build hc
    exact absurd (append_dot_inj hname (hconstants f hf d hd x hx) heq).symm
      (houter _ (ofDecl_mem_build hf hd))

end Build

section Lookup

variable {m : Model} {s : Scope} {first inner : String}

theorem dotParts_pair (hfirst : isName first = true) (hinner : isName inner = true) :
    dotParts (first ++ "." ++ inner) = [first, inner] := by
  rw [dotParts_append, dotParts_of_isName hfirst, dotParts_of_isName hinner]
  rfl

theorem constantValue_dotted_eq_none (hfirst : isName first = true) (hinner : isName inner = true)
    (h : ∀ n ∈ m.heads s first, m.constant? (n ++ "." ++ inner) = none) :
    m.constantValue s (first ++ "." ++ inner) = none := by
  have hnames : ∀ n ∈ dotParts (first ++ "." ++ inner), isName n = true := by
    rw [dotParts_pair hfirst hinner]
    simp [hfirst, hinner]
  have hnone : (m.candidates s (first ++ "." ++ inner)).findSome? m.constant? = none := by
    rw [candidates_dotted (not_mem_dot_of_isName hfirst), List.findSome?_eq_none_iff]
    exact List.forall_mem_map.2 h
  rw [constantValue_path m s hnames, hnone, Option.bind_none]

theorem resolve_dotted_eq_none (hfirst : isName first = true) (hinner : isName inner = true)
    (h : ∀ n ∈ m.heads s first, ∀ t ∈ m.types, t.fullName ≠ n ++ "." ++ inner)
    (args : List TypeArg) :
    m.resolve s (.ofPath (first ++ "." ++ inner) args) = none := by
  rw [resolve, resolveWith_ofPath_eq, Option.bind_eq_none_iff]
  intro syms _
  have hnone : m.known? s none (first ++ "." ++ inner) syms.length = none := by
    rw [known?, candidates_dotted (not_mem_dot_of_isName hfirst), List.findSome?_eq_none_iff]
    refine List.forall_mem_map.2 fun n hn => List.find?_eq_none.2 fun t ht => ?_
    simp [h n hn t ht]
  have houter :
      ((dotParts (first ++ "." ++ inner)).dropLast.map Segment.plain).isEmpty = false := by
    rw [dotParts_pair hfirst hinner]
    rfl
  rw [named, if_neg (by rw [Segment.any_isGeneric_plain]; decide), TypeExpr.dotted_ofPath, hnone,
    houter]
  rfl

end Lookup

/-- A dotted reference may stand for what its first part stands for and no imported namespace. If
that offers no type of that name, what stands inside such a type of a namespace is not found. -/
theorem dotted_eq_iff {files : List SourceFile} {implicitSpaces : List String} {s : Scope}
    {first : String} (hfirst : isName first = true)
    (hconstants : ∀ f ∈ files, ∀ d ∈ f.types, ∀ x ∈ d.constants, '.' ∉ x.name.toList)
    (hfree : ∀ n ∈ (build files implicitSpaces).heads s first,
      ∀ t ∈ (build files implicitSpaces).types, t.fullName ≠ n) (space : String) :
    (∀ rest, (build files implicitSpaces).candidates s (first ++ "." ++ rest)
      = ((build files implicitSpaces).heads s first).map (· ++ "." ++ rest)) ∧
    (∀ inner, isName inner = true →
      ((build files implicitSpaces).constantValue s (first ++ "." ++ inner)
          = (build files implicitSpaces).constantValue s (space ++ "." ++ first ++ "." ++ inner) ↔
        (build files implicitSpaces).constantValue s (space ++ "." ++ first ++ "." ++ inner)
          = none)) ∧
    (∀ inner args, isName inner = true →
      (∀ n ∈ (build files implicitSpaces).heads s first,
        ∀ t ∈ (build files implicitSpaces).types, t.fullName ≠ n ++ "." ++ inner) →
      ((build files implicitSpaces).resolve s (.ofPath (first ++ "." ++ inner) args)
          = (build files implicitSpaces).resolve s
              (.ofPath (space ++ "." ++ first ++ "." ++ inner) args) ↔
        (build files implicitSpaces).resolve s
          (.ofPath (space ++ "." ++ first ++ "." ++ inner) args) = none)) := by
  refine ⟨candidates_dotted (not_mem_dot_of_isName hfirst), ?_, ?_⟩
  · intro inner hinner
    rw [constantValue_dotted_eq_none hfirst hinner fun n hn =>
      constant?_build_eq_none (not_mem_dot_of_isName hinner) hconstants (hfree n hn)]
    exact eq_comm
  · intro inner args hinner hnone
    rw [resolve_dotted_eq_none hfirst hinner hnone args]
    exact eq_comm

/-- A class with a constant and a class in it, in a namespace, and a class elsewhere that imports
the namespace. -/
def greetings : List SourceFile :=
  [⟨"Names.cs", [],
      [⟨"TaskNames", .class, some "App.Constants", [], 0, [], [], [], [],
          [⟨"Greet", "string", "\"Hello\""⟩], default⟩,
        ⟨"Kind", .class, some "App.Constants", ["TaskNames"], 0, [], [], [], [], [], default⟩],
      none⟩,
    ⟨"Greeter.cs", [⟨.space, "App.Constants", false⟩],
      [⟨"Greeter", .class, some "Shop", [], 0, [], [], [], [], [], default⟩], none⟩]

/-- Where the importing class stands. -/
def greeter : Scope :=
  ⟨some "Shop", ["Greeter"], [⟨.space, "App.Constants", false⟩]⟩

theorem dotted_eq_iff_greetings :
    (build greetings []).constantValue greeter "TaskNames.Greet"
        ≠ (build greetings []).constantValue greeter "App.Constants.TaskNames.Greet" ∧
      (build greetings []).resolve greeter (.ofPath "TaskNames.Kind" [])
        ≠ (build greetings []).resolve greeter (.ofPath "App.Constants.TaskNames.Kind" []) := by
  have hconstants : ∀ f ∈ greetings, ∀ d ∈ f.types, ∀ x ∈ d.constants, '.' ∉ x.name.toList := by
    decide +kernel
  have hfree : ∀ n ∈ (build greetings []).heads greeter "TaskNames",
      ∀ t ∈ (build greetings []).types, t.fullName ≠ n := by
    decide +kernel
  have hkind : ∀ n ∈ (build greetings []).heads greeter "TaskNames",
      ∀ t ∈ (build greetings []).types, t.fullName ≠ n ++ "." ++ "Kind" := by
    decide +kernel
  obtain ⟨-, hconstant, htype⟩ :=
    dotted_eq_iff (by decide : isName "TaskNames" = true) hconstants hfree "App.Constants"
  constructor
  · intro h
    have hnone := (hconstant "Greet" (by decide)).1 h
    revert hnone
    decide +kernel
  · intro h
    have hnone := (htype "Kind" [] (by decide) hkind).1 h
    revert hnone
    decide +kernel

/-- The namespace is imported and declares the class, which nothing else offers. In full, its
constant has a value and its inner class a symbol, and without the namespace they have none. -/
theorem dotted_of_imported_greetings :
    (⟨.space, "App.Constants", false⟩ ∈ (build greetings []).usingsIn greeter ∧
        ((build greetings []).type? ("App.Constants" ++ "." ++ "TaskNames") 0).isSome ∧
        ∀ n ∈ (build greetings []).heads greeter "TaskNames",
          ∀ t ∈ (build greetings []).types, t.fullName ≠ n) ∧
      ((build greetings []).constantValue greeter "TaskNames.Greet" = none ∧
        (build greetings []).constantValue greeter "App.Constants.TaskNames.Greet"
          = some "Hello") ∧
      (build greetings []).resolveText greeter "TaskNames.Kind" = none ∧
        (build greetings []).resolveText greeter "App.Constants.TaskNames.Kind"
          = some ⟨"App.Constants.TaskNames.Kind", some "App.Constants", true, false⟩ := by
  refine ⟨⟨by decide, ?_, ?_⟩, ⟨?_, ?_⟩, ?_, ?_⟩
  · decide +kernel
  · decide +kernel
  · decide +kernel
  · decide +kernel
  · decide +kernel
  · decide +kernel

end Model

end TaskWrappers
