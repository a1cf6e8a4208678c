import TaskWrappers.Payload
import TaskWrappers.Proofs.Resolution.Exact
import TaskWrappers.Proofs.Wrapper.Scope

/-!
# Types of `System` without their namespace

Only types of `System` with all their names in full, and the nullable forms of these, are displayed
shorter (`Canonical.inSystem_of_shortDisplay_ne`). What is left of the name is either a path again,
and resolves in the generated class to the type in `System` exactly if that is what it first finds
(`InSystem.resolve_iff`), or it opens with a keyword, and then nothing displayed under `System`
resolves from it (`InSystem.resolveText_ne`).
-/

namespace TaskWrappers

open Text

namespace Symbol

theorem shortDisplay_of_space {sym : Symbol} (h : sym.space ≠ some systemSpace) :
    sym.shortDisplay = sym.display :=
  if_neg h

theorem shortDisplay_of_system {sym : Symbol} {rest : String} (h : sym.space = some systemSpace)
    (hdisplay : sym.display = systemSpace ++ "." ++ rest) : sym.shortDisplay = rest := by
  have hlist : sym.display.toList = (systemSpace ++ ".").toList ++ rest.toList := by
    rw [hdisplay]
    exact String.toList_append
  have hlead : (systemSpace ++ ".").toList.isPrefixOf sym.display.toList = true := by
    rw [hlist, List.isPrefixOf_iff_prefix]
    exact List.prefix_append _ _
  rw [shortDisplay, if_pos h, dropLead?, if_pos hlead, Option.elim_some, hlist, List.drop_left,
    String.ofList_toList]

/-- A display that does not open as `System` does. -/
def OpensElsewhere (sym : Symbol) : Prop := ∃ c cs, sym.display.toList = c :: cs ∧ c ≠ 'S'

theorem OpensElsewhere.shortDisplay_eq {sym : Symbol} (h : sym.OpensElsewhere) :
    sym.shortDisplay = sym.display := by
  obtain ⟨c, cs, hc, hne⟩ := h
  have hlead : ¬ (systemSpace ++ ".").toList.isPrefixOf sym.display.toList = true := by
    rw [hc, List.isPrefixOf_iff_prefix]
    rintro ⟨rest, hrest⟩
    cases hrest
    exact hne rfl
  unfold shortDisplay
  split
  · rw [dropLead?, if_neg hlead]
    rfl
  · rfl

theorem OpensElsewhere.toNullable {sym : Symbol} (h : sym.OpensElsewhere) :
    sym.toNullable.OpensElsewhere := by
  obtain ⟨c, cs, hc, hne⟩ := h
  unfold Symbol.toNullable
  split
  · exact ⟨c, cs, hc, hne⟩
  · exact ⟨c, cs ++ ['?'], by rw [String.toList_append, hc]; rfl, hne⟩

theorem keyword_head {word : String} (h : word ∈ TypeExpr.keywords) :
    ∃ c cs, word.toList = c :: cs ∧ c ≠ 'S' := by
  have hall : ∀ w ∈ TypeExpr.keywords, w.toList.head?.any (· != 'S') = true := by decide
  obtain ⟨c, hc, hne⟩ := (Option.any_eq_true _ _).1 (hall word h)
  obtain ⟨cs, hcs⟩ := List.head?_eq_some_iff.1 hc
  exact ⟨c, cs, hcs, by simpa using hne⟩

theorem opensElsewhere_keyword {word : String} {sym : Symbol} (h : ofKeyword? word = some sym) :
    sym.OpensElsewhere := by
  obtain ⟨hword, hdisplay, -⟩ := mem_keywords_of_ofKeyword? h
  rw [OpensElsewhere, hdisplay]
  exact keyword_head hword

theorem opensElsewhere_tupleOf (shown : List String) : (tupleOf shown).OpensElsewhere :=
  ⟨'(', (", ".intercalate shown).toList ++ [')'], by
    rw [tupleOf, String.toList_append, String.toList_append]; rfl, by decide⟩

end Symbol

section KeywordHead

variable {aliased? : String → Option Symbol} {m : Model} {s : Scope}

/-- What marks are read after a type shows in its display only behind the type's own. -/
theorem Model.display_readMarks {t t' : TypeExpr} {ts us : List TypeToken} {sym' : Symbol}
    (h : TypeExpr.readMarks t ts = .ok (t', us)) (hr : resolveWith aliased? m s t' = some sym') :
    ∃ sym, resolveWith aliased? m s t = some sym ∧ sym.display.toList <+: sym'.display.toList := by
  fun_induction TypeExpr.readMarks t ts with
  | case1 t ts ih =>
    obtain ⟨x, hx, hpre⟩ := ih h
    rw [resolveWith] at hx
    obtain ⟨sym, hsym, rfl⟩ := Option.map_eq_some_iff.1 hx
    refine ⟨sym, hsym, List.IsPrefix.trans ?_ hpre⟩
    unfold Symbol.toNullable
    split
    · exact List.prefix_rfl
    · rw [String.toList_append]
      exact List.prefix_append _ _
  | case2 t ts e he => cases h
  | case3 t ts commas vs hvs ih =>
    obtain ⟨x, hx, hpre⟩ := ih h
    rw [resolveWith] at hx
    obtain ⟨sym, hsym, rfl⟩ := Option.map_eq_some_iff.1 hx
    refine ⟨sym, hsym, List.IsPrefix.trans ?_ hpre⟩
    simp only [Symbol.arrayOf, String.toList_append, List.append_assoc]
    exact List.prefix_append _ _
  | case4 t ts _ _ =>
    cases h
    exact ⟨sym', hr, List.prefix_rfl⟩

/-- Whatever a text with a keyword for its first token denotes is displayed from that keyword on. -/
theorem Model.display_of_keyword_head {text word : String} {ts : List TypeToken} {sym : Symbol}
    (hscan : TypeToken.scan text.toList = .ok (.name word :: ts)) (hword : word ∈ TypeExpr.keywords)
    (h : m.resolveText s text = some sym) : word.toList <+: sym.display.toList := by
  obtain ⟨type, htype, h⟩ := Option.bind_eq_some_iff.1 h
  obtain ⟨tokens, htokens, hread⟩ :=
    Except.exists_of_bind_eq_ok (Except.eq_ok_of_toOption htype)
  rw [hscan] at htokens
  cases htokens
  obtain ⟨⟨type', rest⟩, htype', hread⟩ := Except.exists_of_bind_eq_ok hread
  simp only at hread
  split at hread
  · cases hread
    rw [TypeExpr.readType_keyword hword] at htype'
    obtain ⟨x, hx, hpre⟩ := Model.display_readMarks htype' h
    rw [resolveWith] at hx
    rwa [(Symbol.mem_keywords_of_ofKeyword? hx).2.1] at hpre
  · cases hread

end KeywordHead

namespace TypeExpr

theorem isPath_iff_head {path : String}
    (hnames : ∀ n ∈ dotParts path, isName n = true) :
    isPath path = true ↔ ∀ w, (dotParts path).head? = some w → w ∉ keywords := by
  rw [isPath, List.all_eq_true.2 hnames, Bool.true_and]
  cases (dotParts path).head? with
  | none => simp
  | some w => simp

theorem ofPath_append {lead path : String} (hlead : isName lead = true) (args : List TypeArg) :
    ofPath (lead ++ "." ++ path) args
      = .named none (.plain lead :: (dotParts path).dropLast.map .plain)
        (.ofArgs ((dotParts path).getLast (dotParts_ne_nil path)) args) := by
  have hparts : dotParts (lead ++ "." ++ path) = lead :: dotParts path := by
    rw [dotParts_append, dotParts_of_isName hlead]
    rfl
  simp only [ofPath, hparts, List.dropLast_cons_of_ne_nil (dotParts_ne_nil path),
    List.getLast_cons (dotParts_ne_nil path), List.map_cons]

/-- A path is scanned from its first name on, be it a keyword or not. -/
theorem scan_ofPath {path : String} {args : List TypeArg} {cs : List Char} {ts : List TypeToken}
    (hnames : ∀ n ∈ dotParts path, isName n = true) (hargs : TypeArg.AllWellFormed args)
    (hcs : TypeToken.Breaks cs) (hts : EndsName ts) (h : TypeToken.scan cs = .ok ts) :
    ∃ w us, (dotParts path).head? = some w ∧
      TypeToken.scan ((ofPath path args).print.toList ++ cs) = .ok (.name w :: us) := by
  have houter := allWellFormed_plain fun n hn => hnames n (List.dropLast_subset _ hn)
  have hlast := wellFormed_ofArgs (hnames _ (List.getLast_mem (dotParts_ne_nil path))) hargs
  have hscan := Segment.scan_printDotted _ houter (Segment.scan_print _ hlast hcs h)
  obtain ⟨us, hus, -⟩ := readQualifier_none ((dotParts path).dropLast.map .plain)
    (.ofArgs ((dotParts path).getLast (dotParts_ne_nil path)) args) hts
  rw [hus] at hscan
  refine ⟨_, us, (firstWord_plain args (dotParts_ne_nil path)).symm, ?_⟩
  rw [ofPath, print, String.empty_append, String.toList_append, List.append_assoc]
  exact hscan

end TypeExpr

/-- A type of `System` in full, with canonical arguments. -/
structure InSystem (m : Model) (k : KnownType) (path : String) (args : List (TypeExpr × Symbol)) :
    Prop where
  isPath : TypeExpr.isPath k.fullName = true
  fullName : k.fullName = Symbol.systemSpace ++ "." ++ path
  known : m.type? k.fullName args.length = some k
  arguments : ∀ a ∈ args, Canonical m a.1 a.2
  full : ¬ Symbol.Collapses k (args.map (·.2))

namespace InSystem

variable {aliased? : String → Option Symbol} {m : Model} {mode : Mode} {tasks : TaskSet}
  {k : KnownType} {path : String} {args : List (TypeExpr × Symbol)}

theorem names (h : InSystem m k path args) : ∀ n ∈ dotParts path, isName n = true := by
  have hpath := h.isPath
  rw [TypeExpr.isPath, h.fullName, dotParts_append, Bool.and_eq_true, List.all_eq_true] at hpath
  exact fun n hn => hpath.1 n (List.mem_append_right _ hn)

theorem canonical (h : InSystem m k path args) :
    Canonical m (.ofPath k.fullName (args.map fun a => .given a.1))
      (.ofKnown k (args.map (·.2))) :=
  .known h.isPath h.known h.arguments h.full

theorem isNullable_eq (h : InSystem m k path args) :
    (Symbol.ofKnown k (args.map (·.2))).isNullable = false := by
  rw [Symbol.ofKnown_of_not_collapses h.full]

theorem display_eq (h : InSystem m k path args) :
    (Symbol.ofKnown k (args.map (·.2))).display
      = Symbol.systemSpace ++ "." ++ (path ++ Symbol.argumentDisplay (args.map (·.2))) := by
  rw [Symbol.ofKnown_of_not_collapses h.full, h.fullName, String.append_assoc]

/-- A name without its `System.` that resolves finds a declared type: where it has no dots, the type
in `System` is found at last, and where it has, it cannot be an alias. -/
theorem exists_known? (h : InSystem m k path args) {sym : Symbol}
    (hr : Model.resolveWith aliased? m (Plan.build mode tasks).scope
      (.ofPath path (args.map fun a => .given a.1)) = some sym) :
    ∃ k', m.known? (Plan.build mode tasks).scope none path args.length = some k' := by
  cases hfound : m.known? (Plan.build mode tasks).scope none path args.length with
  | some k' => exact ⟨k', rfl⟩
  | none =>
    exfalso
    have hlast := List.dropLast_concat_getLast (dotParts_ne_nil path)
    cases houter : (dotParts path).dropLast with
    | nil =>
      rw [houter, List.nil_append] at hlast
      have hpath := dotted_dotParts path
      rw [← hlast, Scope.dotted, String.intercalate_singleton] at hpath
      have hname := h.names _ (List.getLast_mem (dotParts_ne_nil path))
      rw [hpath] at hname
      obtain ⟨rest, hrest⟩ := Model.candidates_generated_simple m mode tasks hname
      have hmem : k.fullName ∈ m.candidates (Plan.build mode tasks).scope path := by
        rw [← hrest, h.fullName]
        simp
      have := List.findSome?_eq_none_iff.1 hfound _ hmem
      rw [h.known] at this
      cases this
    | cons first outer =>
      rw [Model.resolveWith_ofPath_eq] at hr
      obtain ⟨syms, hsyms, hr⟩ := Option.bind_eq_some_iff.1 hr
      have hlen := Model.length_resolveArgs hsyms
      rw [List.length_map] at hlen
      rw [Model.named, if_neg (by rw [Segment.any_isGeneric_plain]; decide),
        TypeExpr.dotted_ofPath, hlen, hfound, houter] at hr
      cases hr

section Resolve

variable (hplain : m.Plain)
  (haliased : ∀ name sym, aliased? name = some sym → ∃ t, Canonical m t sym)

include hplain haliased

theorem resolve_iff (h : InSystem m k path args) :
    Model.resolveWith aliased? m (Plan.build mode tasks).scope
        (.ofPath path (args.map fun a => .given a.1)) = some (.ofKnown k (args.map (·.2))) ↔
      m.FirstDeclared (Plan.build mode tasks).scope path args.length k.fullName ∧
        ∀ a ∈ args, a.1.AllNames m.Unhidden := by
  have hargs : (∀ a ∈ args, Model.resolveWith aliased? m (Plan.build mode tasks).scope a.1
      = some a.2) ↔ ∀ a ∈ args, a.1.AllNames m.Unhidden :=
    forall_congr' fun a => forall_congr' fun ha =>
      ((h.arguments a ha).resolve_iff hplain haliased).trans (h.arguments a ha).reaches_iff_unhidden
  rw [Model.firstDeclared_iff h.known]
  constructor
  · intro hr
    obtain ⟨k', hk'⟩ := h.exists_known? hr
    obtain ⟨rfl, hresolve⟩ :=
      (Canonical.resolve_ofPath_iff hplain haliased h.isPath h.known h.arguments h.full hk').1 hr
    exact ⟨hk', hargs.1 hresolve⟩
  · rintro ⟨hk, hunhidden⟩
    exact (Canonical.resolve_ofPath_iff hplain haliased h.isPath h.known h.arguments h.full hk).2
      ⟨rfl, hargs.2 hunhidden⟩

/-- The same under a `?`, which cannot come from inside. -/
theorem resolve_nullable_iff (h : InSystem m k path args) (hshort : TypeExpr.isPath path = true) :
    Model.resolveWith aliased? m (Plan.build mode tasks).scope
        (.nullable (.ofPath path (args.map fun a => .given a.1)))
          = some (Symbol.ofKnown k (args.map (·.2))).toNullable ↔
      Model.resolveWith aliased? m (Plan.build mode tasks).scope
        (.ofPath path (args.map fun a => .given a.1)) = some (.ofKnown k (args.map (·.2))) := by
  rw [Model.resolveWith, Option.map_eq_some_iff]
  constructor
  · rintro ⟨x, hx, heq⟩
    obtain ⟨u, hu⟩ := Model.canonical_resolveWith hplain haliased _
      (TypeExpr.wellFormed_ofPath hshort (Canonical.allWellFormed_given h.arguments)) hx
    cases hmark : x.isNullable with
    | false =>
      rw [Symbol.toNullable_of_unmarked hmark, Symbol.toNullable_of_unmarked h.isNullable_eq,
        Symbol.mk.injEq] at heq
      rw [hx, (hu.unique h.canonical ((String.append_left_inj _).1 heq.1)).2]
    | true =>
      obtain ⟨k', hk'⟩ := h.exists_known? hx
      have hle := Canonical.weight_resolve_ofPath_le hplain
        (fun a ha => (h.arguments a ha).weight_resolve_le hplain) hk' hx
      rw [Symbol.toNullable, if_pos hmark, Symbol.toNullable_of_unmarked h.isNullable_eq,
        Symbol.ofKnown_of_not_collapses h.full] at heq
      rw [heq, weight_append, weight_append, weight_of_isPath h.isPath, Nat.zero_add] at hle
      exact absurd hle (Nat.not_succ_le_self _)
  · intro hr
    exact ⟨_, hr, rfl⟩

end Resolve

/-- A text that opens with a keyword where the display has `System` does not resolve to it. -/
theorem resolveText_ne (h : InSystem m k path args) (hshort : ¬ TypeExpr.isPath path = true)
    {s : Scope} {text : String} {sym : Symbol} {cs : List Char} {ts : List TypeToken}
    (hcs : TypeToken.Breaks cs) (hts : TypeExpr.EndsName ts) (hscan : TypeToken.scan cs = .ok ts)
    (htext : text.toList = (TypeExpr.ofPath path (args.map fun a => .given a.1)).print.toList ++ cs)
    (hdisplay : ¬ sym.OpensElsewhere) : m.resolveText s text ≠ some sym := by
  intro hr
  obtain ⟨w, us, hw, hus⟩ := TypeExpr.scan_ofPath h.names
    (Canonical.allWellFormed_given h.arguments) hcs hts hscan
  have hword : w ∈ TypeExpr.keywords := Decidable.byContradiction fun hword => by
    refine hshort ((TypeExpr.isPath_iff_head h.names).2 fun w' hw' => ?_)
    rw [hw] at hw'
    cases hw'
    exact hword
  rw [← htext] at hus
  obtain ⟨rest, hrest⟩ := Model.display_of_keyword_head hus hword hr
  obtain ⟨c, ds, hds, hne⟩ := Symbol.keyword_head hword
  exact hdisplay ⟨c, ds ++ rest, by rw [← hrest, hds]; rfl, hne⟩

theorem not_opensElsewhere (h : InSystem m k path args) :
    ¬ (Symbol.ofKnown k (args.map (·.2))).OpensElsewhere := by
  rintro ⟨c, cs, hc, hne⟩
  rw [h.display_eq, String.toList_append] at hc
  cases hc
  exact hne rfl

theorem not_opensElsewhere_toNullable (h : InSystem m k path args) :
    ¬ (Symbol.ofKnown k (args.map (·.2))).toNullable.OpensElsewhere := by
  rintro ⟨c, cs, hc, hne⟩
  rw [Symbol.toNullable_of_unmarked h.isNullable_eq, h.display_eq, String.toList_append,
    String.toList_append] at hc
  cases hc
  exact hne rfl

theorem print_short (h : InSystem m k path args) :
    (TypeExpr.ofPath path (args.map fun a => .given a.1)).print
      = path ++ Symbol.argumentDisplay (args.map (·.2)) := by
  rw [TypeExpr.print_ofPath,
    TypeExpr.argumentList_given fun a ha => (h.arguments a ha).print_eq]

end InSystem

/-- Only a type of `System` in full, and its nullable form, are displayed shorter. -/
theorem Canonical.inSystem_of_shortDisplay_ne {m : Model} (hplain : m.Plain) {t : TypeExpr}
    {sym : Symbol} (h : Canonical m t sym) (hne : sym.shortDisplay ≠ sym.display) :
    ∃ k path args, InSystem m k path args ∧
      ((t = .ofPath k.fullName (args.map fun a => .given a.1) ∧
          sym = .ofKnown k (args.map (·.2)) ∧
          sym.shortDisplay = path ++ Symbol.argumentDisplay (args.map (·.2))) ∨
        (t = .nullable (.ofPath k.fullName (args.map fun a => .given a.1)) ∧
          sym = (Symbol.ofKnown k (args.map (·.2))).toNullable ∧
          sym.shortDisplay = path ++ Symbol.argumentDisplay (args.map (·.2)) ++ "?")) := by
  cases h with
  | keyword hword => exact absurd (Symbol.opensElsewhere_keyword hword).shortDisplay_eq hne
  | array commas _ => exact absurd (Symbol.shortDisplay_of_space (fun h => by cases h)) hne
  | tuple _ _ => exact absurd (Symbol.opensElsewhere_tupleOf _).shortDisplay_eq hne
  | @known k args hpath hknown hargs hfull =>
    by_cases hspace : k.space = some Symbol.systemSpace
    · obtain ⟨path, hname⟩ := hplain.spaces k (Model.type?_some hknown).1 _ hspace
      have hsys : InSystem m k path args := ⟨hpath, hname, hknown, hargs, hfull⟩
      refine ⟨k, path, args, hsys, .inl ⟨rfl, rfl, ?_⟩⟩
      exact Symbol.shortDisplay_of_system
        (by rw [Symbol.ofKnown_of_not_collapses hfull]; exact hspace) hsys.display_eq
    · refine absurd (Symbol.shortDisplay_of_space ?_) hne
      rwa [Symbol.ofKnown_of_not_collapses hfull]
  | @nullable type sym htype hunmarked =>
    cases htype with
    | keyword hword =>
      exact absurd (Symbol.opensElsewhere_keyword hword).toNullable.shortDisplay_eq hne
    | array commas _ => exact absurd (Symbol.shortDisplay_of_space (fun h => by cases h)) hne
    | tuple _ _ => exact absurd (Symbol.opensElsewhere_tupleOf _).toNullable.shortDisplay_eq hne
    | nullable _ _ =>
      rw [Symbol.isNullable_toNullable] at hunmarked
      cases hunmarked
    | @known k args hpath hknown hargs hfull =>
      by_cases hspace : k.space = some Symbol.systemSpace
      · obtain ⟨path, hname⟩ := hplain.spaces k (Model.type?_some hknown).1 _ hspace
        have hsys : InSystem m k path args := ⟨hpath, hname, hknown, hargs, hfull⟩
        refine ⟨k, path, args, hsys, .inr ⟨rfl, rfl, ?_⟩⟩
        rw [Symbol.toNullable_of_unmarked hunmarked]
        refine Symbol.shortDisplay_of_system
          (by rw [Symbol.ofKnown_of_not_collapses hfull]; exact hspace) ?_
        rw [hsys.display_eq, String.append_assoc]
      · refine absurd (Symbol.shortDisplay_of_space ?_) hne
        rw [Symbol.toNullable_of_unmarked hunmarked, Symbol.ofKnown_of_not_collapses hfull]
        exact hspace

end TaskWrappers
