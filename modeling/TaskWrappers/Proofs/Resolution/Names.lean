import TaskWrappers.Proofs.Resolution.Canonical
import TaskWrappers.Proofs.TypeExpr.Exact

/-!
# Resolution name by name

A type is resolved name by name. Where every name of a type stands for the same with the same
arguments, the type does (`Model.resolveWith_congr`), whatever else differs between two scopes,
their models and what aliases stand for in them.

With `global::` in front, the text of a name is the text of the same name behind that qualifier
(`TypeExpr.read_global`).
-/

namespace TaskWrappers

section AllNames

variable {P : String → Nat → Prop}

mutual

theorem TypeExpr.allNames_of_forall (h : ∀ name k, P name k) : ∀ t : TypeExpr, t.AllNames P
  | .keyword _ => trivial
  | .named _ _ last => ⟨h _ _, Segment.allNames_of_forall h last⟩
  | .nullable inner => TypeExpr.allNames_of_forall h inner
  | .array element _ => TypeExpr.allNames_of_forall h element
  | .tuple first second rest =>
    ⟨TupleElement.allNames_of_forall h first, TupleElement.allNames_of_forall h second,
      TupleElement.eachAllNames_of_forall h rest⟩

theorem Segment.allNames_of_forall (h : ∀ name k, P name k) : ∀ s : Segment, s.AllNames P
  | .plain _ => trivial
  | .generic _ first rest =>
    ⟨TypeArg.allNames_of_forall h first, TypeArg.eachAllNames_of_forall h rest⟩

theorem TypeArg.allNames_of_forall (h : ∀ name k, P name k) : ∀ a : TypeArg, a.AllNames P
  | .omitted => trivial
  | .given type => TypeExpr.allNames_of_forall h type

theorem TypeArg.eachAllNames_of_forall (h : ∀ name k, P name k) :
    ∀ as : List TypeArg, TypeArg.EachAllNames P as
  | [] => trivial
  | a :: as => ⟨TypeArg.allNames_of_forall h a, TypeArg.eachAllNames_of_forall h as⟩

theorem TupleElement.allNames_of_forall (h : ∀ name k, P name k) : ∀ e : TupleElement, e.AllNames P
  | ⟨type, _⟩ => TypeExpr.allNames_of_forall h type

theorem TupleElement.eachAllNames_of_forall (h : ∀ name k, P name k) : ∀ es : List TupleElement,
    TupleElement.EachAllNames P es
  | [] => trivial
  | e :: es => ⟨TupleElement.allNames_of_forall h e, TupleElement.eachAllNames_of_forall h es⟩

end

end AllNames

namespace TypeExpr

open TypeToken (scan)

/-- A name reads as itself behind `global::` where that stands in front of its text. -/
theorem read_global {text : String} {outer : List Segment} {last : Segment}
    (h : read text = .ok (.named none outer last)) :
    read ("global::" ++ text) = .ok (.named (some globalQualifier) outer last) := by
  obtain ⟨ts, hts, ht⟩ := read_iff.1 h
  cases ht with
  | primary ht =>
    cases ht with
    | unqualified hhead hword hpath =>
      have htext : ("global::" ++ text).toList = "global".toList ++ ':' :: ':' :: text.toList := by
        rw [String.toList_append]
        rfl
      refine read_iff.2 ⟨_, ?_, .primary (.qualified (by decide) hpath)⟩
      rw [htext]
      exact TypeToken.scan_name (by decide) (TypeToken.breaks_cons (by decide))
        (TypeToken.scan_colons hts)

end TypeExpr

namespace Model

section Congruence

variable {P : String → Nat → Prop} {f f' : String → Option Symbol} {m m' : Model} {s s' : Scope}

/-- That names with so many arguments stand for the same on both sides, if they are of a kind. -/
def NamedAlike (P : String → Nat → Prop) (f f' : String → Option Symbol) (m m' : Model)
    (s s' : Scope) : Prop :=
  ∀ qualifier outer last args,
    P (Scope.dotted ((outer ++ [last]).map Segment.name)) args.length →
      named f m s qualifier outer last args = named f' m' s' qualifier outer last args

mutual

/-- A type stands for the same where all of its names do. -/
theorem resolveWith_congr (hnamed : NamedAlike P f f' m m' s s') :
    ∀ {t : TypeExpr}, t.AllNames P →
      resolveWith f m s t = resolveWith f' m' s' t
  | .keyword word, _ => by rw [resolveWith, resolveWith]
  | .named qualifier outer (.plain name), h => by
    rw [resolveWith, resolveWith]
    exact hnamed _ _ _ [] h.1
  | .named qualifier outer (.generic name first rest), h => by
    have hargs : resolveArgs f m s (first :: rest) = resolveArgs f' m' s' (first :: rest) := by
      rw [resolveArgs, resolveArgs, resolveArg_congr hnamed h.2.1, resolveArgs_congr hnamed h.2.2]
    rw [resolveWith_named, resolveWith_named, Segment.args, ← hargs]
    cases hsyms : resolveArgs f m s (first :: rest) with
    | none => rfl
    | some syms =>
      refine hnamed _ _ _ syms ?_
      rw [length_resolveArgs hsyms]
      exact h.1
  | .nullable inner, h => by
    rw [resolveWith, resolveWith, resolveWith_congr hnamed (t := inner) h]
  | .array element commas, h => by
    rw [resolveWith, resolveWith, resolveWith_congr hnamed (t := element) h]
  | .tuple first second rest, h => by
    rw [resolveWith, resolveWith, displayElement_congr hnamed h.1,
      displayElement_congr hnamed h.2.1, displayElements_congr hnamed h.2.2]

theorem resolveArg_congr (hnamed : NamedAlike P f f' m m' s s') :
    ∀ {arg : TypeArg}, arg.AllNames P →
      resolveArg f m s arg = resolveArg f' m' s' arg
  | .omitted, _ => by rw [resolveArg, resolveArg]
  | .given type, h => by
    rw [resolveArg, resolveArg]
    exact resolveWith_congr hnamed h

theorem resolveArgs_congr (hnamed : NamedAlike P f f' m m' s s') :
    ∀ {args : List TypeArg}, TypeArg.EachAllNames P args →
      resolveArgs f m s args = resolveArgs f' m' s' args
  | [], _ => by rw [resolveArgs, resolveArgs]
  | arg :: args, h => by
    rw [resolveArgs, resolveArgs, resolveArg_congr hnamed h.1, resolveArgs_congr hnamed h.2]

theorem displayElement_congr (hnamed : NamedAlike P f f' m m' s s') :
    ∀ {e : TupleElement}, e.AllNames P →
      displayElement f m s e = displayElement f' m' s' e
  | ⟨type, name⟩, h => by
    rw [displayElement, displayElement, resolveWith_congr hnamed (t := type) h]

theorem displayElements_congr (hnamed : NamedAlike P f f' m m' s s') :
    ∀ {es : List TupleElement}, TupleElement.EachAllNames P es →
      displayElements f m s es = displayElements f' m' s' es
  | [], _ => by rw [displayElements, displayElements]
  | e :: es, h => by
    rw [displayElements, displayElements, displayElement_congr hnamed h.1,
      displayElements_congr hnamed h.2]

end

end Congruence

end Model

end TaskWrappers
