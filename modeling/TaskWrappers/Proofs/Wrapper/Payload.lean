import TaskWrappers.Proofs.Wrapper.Short

/-!
# Payload types in the generated file

The text of a payload type is read a second time, in the generated class, and should denote there
what it was made from. It does so exactly if `Symbol.KeptIn` holds
(`Model.resolve_payloadText_iff`): nothing around the class hides one of its names in full, and if
the text lost the `System.` in front, then what remains does not open with a keyword and is first
declared as the type that is meant. A
type of the global namespace with the name of one in `System` is enough to break this
(`Model.resolve_payloadText_guid`).
-/

namespace TaskWrappers

open Text

/-- Whether a type whose name loses the part in front still denotes the type of the full name in
`System`: the name does not become a keyword, what it finds is that type, and nothing hides the
names of its arguments. -/
def TypeExpr.KeptShort (m : Model) (s : Scope) : TypeExpr → Prop
  | .named none (.plain _ :: outer) last =>
    TypeExpr.firstWord none outer last ∉ TypeExpr.keywords ∧
      m.FirstDeclared s (Scope.dotted ((outer ++ [last]).map Segment.name)) last.args.length
        (Symbol.systemSpace ++ "." ++ Scope.dotted ((outer ++ [last]).map Segment.name)) ∧
      last.AllNames m.Unhidden
  | .nullable inner => inner.KeptShort m s
  | _ => False

/-- Whether the payload text of a symbol still denotes it in a scope of the generated file. -/
def Symbol.KeptIn (m : Model) (s : Scope) (sym : Symbol) : Prop :=
  ∃ t, TypeExpr.read sym.display = .ok t ∧
    if sym.shortDisplay = sym.display then t.AllNames m.Unhidden else t.KeptShort m s

theorem TypeExpr.keptShort_ofPath {m : Model} {s : Scope} {path : String}
    {args : List (TypeExpr × Symbol)} :
    (TypeExpr.ofPath (Symbol.systemSpace ++ "." ++ path)
        (args.map fun a => .given a.1)).KeptShort m s ↔
      (∀ w, (dotParts path).head? = some w → w ∉ TypeExpr.keywords) ∧
        m.FirstDeclared s path args.length (Symbol.systemSpace ++ "." ++ path) ∧
          ∀ a ∈ args, a.1.AllNames m.Unhidden := by
  rw [ofPath_append (by decide), KeptShort, dotted_ofPath, Segment.args_ofArgs, List.length_map,
    Segment.allNames_ofArgs, TypeArg.eachAllNames_given,
    ← firstWord_plain (args.map fun a => .given a.1) (dotParts_ne_nil path)]
  simp only [Option.some.injEq, forall_eq']

namespace InSystem

variable {m : Model} {mode : Mode} {tasks : TaskSet} {k : KnownType} {path : String}
  {args : List (TypeExpr × Symbol)}

theorem not_keptShort (h : InSystem m k path args) (hshort : ¬ TypeExpr.isPath path = true) :
    ¬ (TypeExpr.ofPath k.fullName (args.map fun a => .given a.1)).KeptShort m
      (Plan.build mode tasks).scope := by
  rw [h.fullName, TypeExpr.keptShort_ofPath]
  exact fun hkept => hshort ((TypeExpr.isPath_iff_head h.names).2 hkept.1)

section ResolveText

variable (hplain : m.Plain)

include hplain

/-- The type without its `System.` resolves to the same symbol exactly if it is kept. -/
theorem keptShort_iff (h : InSystem m k path args) (hshort : TypeExpr.isPath path = true) :
    m.resolve (Plan.build mode tasks).scope (.ofPath path (args.map fun a => .given a.1))
        = some (.ofKnown k (args.map (·.2))) ↔
      (TypeExpr.ofPath k.fullName (args.map fun a => .given a.1)).KeptShort m
        (Plan.build mode tasks).scope := by
  rw [Model.resolve, h.resolve_iff hplain fun _ _ =>
    Model.canonical_resolveAlias hplain (Plan.plain_scope mode tasks), h.fullName,
    TypeExpr.keptShort_ofPath]
  exact (and_iff_right ((TypeExpr.isPath_iff_head h.names).1 hshort)).symm

theorem resolveText_iff (h : InSystem m k path args) :
    m.resolveText (Plan.build mode tasks).scope (path ++ Symbol.argumentDisplay (args.map (·.2)))
        = some (.ofKnown k (args.map (·.2))) ↔
      (TypeExpr.ofPath k.fullName (args.map fun a => .given a.1)).KeptShort m
        (Plan.build mode tasks).scope := by
  rw [← h.print_short]
  by_cases hshort : TypeExpr.isPath path = true
  · have hw := TypeExpr.wellFormed_ofPath hshort (Canonical.allWellFormed_given h.arguments)
    rw [Model.resolveText, TypeExpr.read_print hw]
    exact h.keptShort_iff hplain hshort
  · have hend : TypeExpr.EndsName [] := by simp [TypeExpr.EndsName]
    refine iff_of_false ?_ (h.not_keptShort hshort)
    exact h.resolveText_ne hshort TypeToken.breaks_nil hend (by rw [TypeToken.scan])
      (List.append_nil _).symm h.not_opensElsewhere

theorem resolveText_nullable_iff (h : InSystem m k path args) :
    m.resolveText (Plan.build mode tasks).scope
        (path ++ Symbol.argumentDisplay (args.map (·.2)) ++ "?")
          = some (Symbol.ofKnown k (args.map (·.2))).toNullable ↔
      (TypeExpr.ofPath k.fullName (args.map fun a => .given a.1)).KeptShort m
        (Plan.build mode tasks).scope := by
  rw [← h.print_short]
  by_cases hshort : TypeExpr.isPath path = true
  · have hw : (TypeExpr.nullable (.ofPath path (args.map fun a => .given a.1))).WellFormed := by
      rw [TypeExpr.WellFormed]
      exact TypeExpr.wellFormed_ofPath hshort (Canonical.allWellFormed_given h.arguments)
    have hread := TypeExpr.read_print hw
    rw [TypeExpr.print] at hread
    rw [Model.resolveText, hread, ← h.keptShort_iff hplain hshort]
    exact h.resolve_nullable_iff hplain (fun _ _ =>
      Model.canonical_resolveAlias hplain (Plan.plain_scope mode tasks)) hshort
  · refine iff_of_false ?_ (h.not_keptShort hshort)
    exact h.resolveText_ne hshort (TypeToken.breaks_cons (c := '?') (by decide))
      (TypeExpr.endsName_cons rfl)
      (TypeToken.scan_mark (t := .question) (by decide) rfl (by rw [TypeToken.scan]))
      String.toList_append h.not_opensElsewhere_toNullable

end ResolveText

end InSystem

namespace Model

/-- A payload's text resolves to its symbol in the generated class exactly if the symbol is kept
there. -/
theorem resolve_payloadText_iff {files : List SourceFile} {implicitSpaces : List String} {s : Scope}
    {type : TypeExpr} {sym : Symbol} (mode : Mode) (tasks : TaskSet)
    (hnames : ∀ f ∈ files, ∀ d ∈ f.types, TypeExpr.isPath d.fullName = true)
    (htargets : ∀ f ∈ files, ∀ u ∈ f.usings, '@' ∉ u.target.toList)
    (hscope : ∀ u ∈ s.usings, '@' ∉ u.target.toList) (hw : type.WellFormed)
    (h : (build files implicitSpaces).resolve s type = some sym) :
    (build files implicitSpaces).resolveText (Plan.build mode tasks).scope
        (Symbol.payloadText (some sym) false) = some sym ↔
      sym.KeptIn (build files implicitSpaces) (Plan.build mode tasks).scope := by
  have hplain : (build files implicitSpaces).Plain := plain_build implicitSpaces hnames
    fun f hf u hu => verbatimNames_of_not_mem (htargets f hf u hu)
  obtain ⟨t, ht⟩ := canonical_resolve hplain
    (fun u hu => verbatimNames_of_not_mem (hscope u hu)) hw h
  have hread := ht.read_display
  have hkept : sym.KeptIn (build files implicitSpaces) (Plan.build mode tasks).scope ↔
      if sym.shortDisplay = sym.display then t.AllNames (build files implicitSpaces).Unhidden
      else t.KeptShort (build files implicitSpaces) (Plan.build mode tasks).scope := by
    constructor
    · rintro ⟨t', ht', hk⟩
      rw [hread] at ht'
      cases ht'
      exact hk
    · exact fun hk => ⟨t, hread, hk⟩
  rw [hkept, Symbol.payloadText]
  by_cases hshort : sym.shortDisplay = sym.display
  · rw [if_pos hshort, hshort, resolveText, hread]
    exact (ht.resolve_iff hplain fun _ _ =>
      canonical_resolveAlias hplain (Plan.plain_scope mode tasks)).trans ht.reaches_iff_unhidden
  · rw [if_neg hshort]
    obtain ⟨k, path, args, hsys, ⟨rfl, rfl, htext⟩ | ⟨rfl, rfl, htext⟩⟩ :=
      ht.inSystem_of_shortDisplay_ne hplain hshort
    · rw [htext]
      exact hsys.resolveText_iff hplain
    · rw [htext, TypeExpr.KeptShort]
      exact hsys.resolveText_nullable_iff hplain

/-- A file that declares a `Guid` of its own in the global namespace. -/
def guids : SourceFile where
  path := "Guids.cs"
  usings := []
  types := [⟨"Guid", .struct, none, [], 0, [], [], [], [], [], default⟩]
  damage := none

/-- The text of a list of `System.Guid` names both in full, and is kept. -/
theorem resolve_payloadText_list :
    (build [guids] []).resolve ⟨some "App", ["Job"], []⟩
        (.named none [.plain "System", .plain "Collections", .plain "Generic"]
          (.generic "List" (.given (.named none [.plain "System"] (.plain "Guid"))) []))
        = some ⟨"System.Collections.Generic.List<System.Guid>", some "System.Collections.Generic",
          true, false⟩ ∧
      Symbol.KeptIn (build [guids] []) (Plan.build .standalone ⟨[], [], []⟩).scope
        ⟨"System.Collections.Generic.List<System.Guid>", some "System.Collections.Generic", true,
          false⟩ := by
  have h : (build [guids] []).resolve ⟨some "App", ["Job"], []⟩
      (.named none [.plain "System", .plain "Collections", .plain "Generic"]
        (.generic "List" (.given (.named none [.plain "System"] (.plain "Guid"))) []))
      = some ⟨"System.Collections.Generic.List<System.Guid>", some "System.Collections.Generic",
        true, false⟩ := by
    decide +kernel
  have hnames : ∀ f ∈ [guids], ∀ d ∈ f.types, TypeExpr.isPath d.fullName = true := by
    decide +kernel
  have hw : TypeExpr.WellFormed
      (.named none [.plain "System", .plain "Collections", .plain "Generic"]
        (.generic "List" (.given (.named none [.plain "System"] (.plain "Guid"))) [])) := by
    simp only [TypeExpr.WellFormed, Segment.AllWellFormed, Segment.WellFormed, TypeArg.WellFormed,
      TypeArg.AllWellFormed]
    decide +kernel
  have hkept := resolve_payloadText_iff .standalone ⟨[], [], []⟩ hnames (by decide) (by decide) hw h
  refine ⟨h, hkept.1 ?_⟩
  rw [Symbol.payloadText, Symbol.shortDisplay_of_space (by decide)]
  decide +kernel

/-- The text of `System.Guid` alone is short, and denotes the other `Guid`. -/
theorem resolve_payloadText_guid :
    (build [guids] []).resolve ⟨some "App", ["Job"], []⟩
        (.named none [.plain "System"] (.plain "Guid"))
        = some ⟨"System.Guid", some "System", false, false⟩ ∧
      (build [guids] []).resolveText (Plan.build .standalone ⟨[], [], []⟩).scope
          (Symbol.payloadText (some ⟨"System.Guid", some "System", false, false⟩) false)
        = some ⟨"Guid", none, false, false⟩ := by
  constructor
  · decide +kernel
  · decide +kernel

end Model

end TaskWrappers
