import TaskWrappers.Model
import TaskWrappers.Proofs.Text.Split
import TaskWrappers.Proofs.TypeExpr.WellFormed
import TaskWrappers.TypeExpr.Printer

/-!
# Types named by a path

A full name that is made of names between dots can be written as a type: its parts are the segments
and any type arguments stand after the last (`TypeExpr.ofPath`). The type is well formed if the path
does not open with a keyword, is printed as the path and its arguments (`TypeExpr.print_ofPath`),
and its segments spell the path (`TypeExpr.dotted_ofPath`).
-/

namespace TaskWrappers

open Text

namespace Text

theorem dotParts_ne_nil (path : String) : dotParts path ≠ [] := by
  rw [dotParts, ne_eq, List.map_eq_nil_iff]
  exact split_ne_nil _ _

/-- Dots between its parts give a path back. -/
theorem dotted_dotParts (path : String) : Scope.dotted (dotParts path) = path := by
  rw [← String.toList_inj, Scope.dotted, String.toList_intercalate, dotParts, List.map_map]
  have hid : (String.toList ∘ String.ofList) = id := funext fun cs => String.toList_ofList
  rw [hid, List.map_id]
  exact intercalate_split '.' path.toList

theorem dotParts_append (a b : String) :
    dotParts (a ++ "." ++ b) = dotParts a ++ dotParts b := by
  have hdot : (a ++ "." ++ b).toList = a.toList ++ '.' :: b.toList := by
    simp [String.toList_append]
  rw [dotParts, hdot, split_append_cons (by decide), List.map_append, dotParts, dotParts]

theorem dotParts_of_not_mem {part : String} (h : '.' ∉ part.toList) : dotParts part = [part] := by
  rw [dotParts, split_of_not_mem h, List.map_cons, List.map_nil, String.ofList_toList]

theorem not_mem_dot_of_isName {name : String} (h : isName name = true) : '.' ∉ name.toList :=
  not_mem_of_isName h (by decide)

theorem dotParts_of_isName {name : String} (h : isName name = true) : dotParts name = [name] :=
  dotParts_of_not_mem (not_mem_dot_of_isName h)

/-- What a path is put in front of, where that has no dots, can be told from the whole. -/
theorem append_dot_inj {a a' b b' : String} (hb : '.' ∉ b.toList) (hb' : '.' ∉ b'.toList)
    (h : a ++ "." ++ b = a' ++ "." ++ b') : a = a' := by
  have hparts := congrArg dotParts h
  rw [dotParts_append, dotParts_append, dotParts_of_not_mem hb, dotParts_of_not_mem hb'] at hparts
  rw [← dotted_dotParts a, (List.append_inj_left' hparts rfl), dotted_dotParts]

end Text

namespace Segment

/-- The segment of a name with the given type arguments, if any. -/
def ofArgs (name : String) : List TypeArg → Segment
  | [] => .plain name
  | arg :: args => .generic name arg args

theorem name_ofArgs (n : String) (args : List TypeArg) : (ofArgs n args).name = n := by
  cases args <;> rfl

theorem args_ofArgs (n : String) (args : List TypeArg) : (ofArgs n args).args = args := by
  cases args <;> rfl

theorem map_name_plain (names : List String) : (names.map plain).map Segment.name = names := by
  rw [List.map_map]
  exact List.map_id _

theorem any_isGeneric_plain (names : List String) : (names.map plain).any isGeneric = false := by
  rw [List.any_map]
  exact List.any_eq_false.2 fun n _ => by simp [isGeneric]

theorem printDotted_plain (last : String) : ∀ names : List String,
    printDotted (names.map plain) ++ last = Scope.dotted (names ++ [last])
  | [] => by
    rw [List.map_nil, printDotted, String.empty_append]
    exact String.intercalate_singleton.symm
  | n :: ns => by
    have hne : ns ++ [last] ≠ [] := by simp
    rw [List.map_cons, printDotted, String.append_assoc, printDotted_plain last ns, print,
      Scope.dotted, Scope.dotted, List.cons_append, String.intercalate_cons_of_ne_nil hne]

end Segment

namespace TypeExpr

/-- Whether a full name is made of names between dots and does not open with a keyword. -/
def isPath (path : String) : Bool :=
  (dotParts path).all isName && !(dotParts path).head?.any (· ∈ keywords)

/-- What a path declares under a name is a path. -/
theorem isPath_append {path name : String} (hpath : isPath path = true)
    (hname : isName name = true) : isPath (path ++ "." ++ name) = true := by
  rw [isPath, Bool.and_eq_true] at hpath ⊢
  obtain ⟨part, parts, hparts⟩ := List.exists_cons_of_ne_nil (dotParts_ne_nil path)
  rw [dotParts_append, dotParts_of_isName hname, List.all_append, hpath.1]
  rw [hparts] at hpath ⊢
  exact ⟨by simpa using hname, hpath.2⟩

/-- A path has no characters but the dots and those of names. -/
theorem not_mem_of_isPath {path : String} (h : isPath path = true) {c : Char}
    (hc : isNameRest c = false) (hdot : c ≠ '.') : c ∉ path.toList := by
  intro hmem
  obtain ⟨part, hpart, hmem⟩ := exists_mem_split (p := (· == '.')) (by simpa using hdot) hmem
  have hname : isName (.ofList part) = true := by
    rw [isPath, Bool.and_eq_true, List.all_eq_true] at h
    exact h.1 _ (List.mem_map_of_mem hpart)
  exact not_mem_of_isName hname hc (by simpa using hmem)

/-- The type named by a path, with the given type arguments. -/
def ofPath (path : String) (args : List TypeArg) : TypeExpr :=
  .named none ((dotParts path).dropLast.map .plain)
    (.ofArgs ((dotParts path).getLast (dotParts_ne_nil path)) args)

/-- The written form of type arguments, empty if there are none. -/
def argumentList : List TypeArg → String
  | [] => ""
  | arg :: args =>
    "<" ++ arg.print
      ++ TypeArg.printRest (if (arg :: args).all TypeArg.isOmitted then "," else ", ") args ++ ">"

theorem print_ofArgs (name : String) : ∀ args : List TypeArg,
    (Segment.ofArgs name args).print = name ++ argumentList args
  | [] => by rw [Segment.ofArgs, Segment.print, argumentList, String.append_empty]
  | arg :: args => by
    rw [Segment.ofArgs, Segment.print, argumentList]
    simp only [String.append_assoc]

theorem print_ofPath (path : String) (args : List TypeArg) :
    (ofPath path args).print = path ++ argumentList args := by
  rw [ofPath, print, print_ofArgs, String.empty_append, ← String.append_assoc,
    Segment.printDotted_plain, List.dropLast_concat_getLast, dotted_dotParts]

/-- The segments of a path's type spell the path. -/
theorem dotted_ofPath (path : String) (args : List TypeArg) :
    Scope.dotted (((dotParts path).dropLast.map Segment.plain ++
      [Segment.ofArgs ((dotParts path).getLast (dotParts_ne_nil path)) args]).map Segment.name)
        = path := by
  rw [List.map_append, Segment.map_name_plain, List.map_cons, List.map_nil, Segment.name_ofArgs,
    List.dropLast_concat_getLast, dotted_dotParts]

theorem ofPath_injective {path path' : String} {args args' : List TypeArg}
    (h : ofPath path args = ofPath path' args') : path = path' ∧ args = args' := by
  simp only [ofPath, named.injEq, true_and] at h
  obtain ⟨houter, hlast⟩ := h
  refine ⟨?_, ?_⟩
  · rw [← dotted_ofPath path args, houter, hlast, dotted_ofPath]
  · rw [← Segment.args_ofArgs _ args, hlast, Segment.args_ofArgs]

theorem allWellFormed_plain : ∀ {names : List String}, (∀ n ∈ names, isName n = true) →
    Segment.AllWellFormed (names.map .plain)
  | [], _ => by
    rw [List.map_nil, Segment.AllWellFormed]
    trivial
  | n :: ns, h => by
    rw [List.map_cons, Segment.AllWellFormed, Segment.WellFormed]
    exact ⟨h n List.mem_cons_self,
      allWellFormed_plain fun m hm => h m (List.mem_cons_of_mem _ hm)⟩

theorem wellFormed_ofArgs {name : String} (hn : isName name = true) :
    ∀ {args : List TypeArg}, TypeArg.AllWellFormed args → (Segment.ofArgs name args).WellFormed
  | [], _ => by rwa [Segment.ofArgs, Segment.WellFormed]
  | arg :: args, h => by
    rw [TypeArg.AllWellFormed] at h
    rw [Segment.ofArgs, Segment.WellFormed]
    exact ⟨hn, h⟩

theorem firstWord_plain (args : List TypeArg) : ∀ {parts : List String} (hne : parts ≠ []),
    some (firstWord none (parts.dropLast.map .plain) (.ofArgs (parts.getLast hne) args))
      = parts.head?
  | [n], _ => by simp [firstWord, Segment.name_ofArgs]
  | n :: m :: ns, _ => by simp [firstWord, Segment.name]

theorem wellFormed_ofPath {path : String} {args : List TypeArg} (hpath : isPath path = true)
    (hargs : TypeArg.AllWellFormed args) : (ofPath path args).WellFormed := by
  rw [isPath, Bool.and_eq_true, List.all_eq_true,
    ← firstWord_plain args (dotParts_ne_nil path)] at hpath
  obtain ⟨hnames, hfirst⟩ := hpath
  rw [ofPath, WellFormed]
  refine ⟨fun q hq => ?_, ?_, ?_, ?_⟩
  · cases hq
  · exact allWellFormed_plain fun n hn => hnames n (List.dropLast_subset _ hn)
  · exact wellFormed_ofArgs (hnames _ (List.getLast_mem _)) hargs
  · simpa using hfirst

end TypeExpr

end TaskWrappers
