import TaskWrappers.Proofs.Resolution.Display

/-!
# When a canonical type keeps its meaning

In any scope a canonical type resolves to its own symbol exactly if all of its names reach the types
of these names (`Canonical.resolve_iff`): a name that finds another type is displayed under that
type's full name, and no display belongs to two symbols. The one place where a name could be lost
without a trace is under a `?`, since a nullable type is not marked twice. There the weight of a
display decides, its number of marks and argument lists, which looking names up elsewhere never
raises (`Canonical.weight_resolve_le`).
-/

namespace TaskWrappers

open Text

/-- The number of `?` and of argument lists in a display. -/
def Text.weight (display : String) : Nat :=
  display.toList.countP fun c => c == '<' || c == '?'

namespace Text

/-- The weight of texts together. -/
def weights : List String → Nat
  | [] => 0
  | t :: ts => weight t + weights ts

theorem weights_eq_zero : ∀ {ts : List String}, (∀ t ∈ ts, weight t = 0) → weights ts = 0
  | [], _ => rfl
  | t :: ts, h => by
    rw [List.forall_mem_cons] at h
    rw [weights, h.1, weights_eq_zero h.2]

theorem weight_append (a b : String) : weight (a ++ b) = weight a + weight b := by
  rw [weight, String.toList_append, List.countP_append]
  rfl

theorem weight_intercalate {separator : String} (h : weight separator = 0) :
    ∀ parts : List String, weight (separator.intercalate parts) = weights parts
  | [] => by simp [weight, weights]
  | [part] => by simp [weights]
  | part :: next :: parts => by
    rw [String.intercalate_cons_cons, weight_append, weight_append, h,
      weight_intercalate h (next :: parts), Nat.add_zero]
    rfl

theorem weight_of_isName {name : String} (h : isName name = true) : weight name = 0 := by
  refine List.countP_eq_zero.2 fun c hc => ?_
  have hrest := isNameRest_of_isName h c hc
  simp only [Bool.or_eq_true, beq_iff_eq]
  rintro (rfl | rfl)
  · exact absurd hrest (by decide)
  · exact absurd hrest (by decide)

theorem weight_of_isPath {path : String} (h : TypeExpr.isPath path = true) : weight path = 0 := by
  rw [TypeExpr.isPath, Bool.and_eq_true, List.all_eq_true] at h
  rw [← dotted_dotParts path, Scope.dotted, weight_intercalate (by decide)]
  exact weights_eq_zero fun part hpart => weight_of_isName (h.1 part hpart)

end Text

namespace Symbol

theorem weight_toNullable_le (sym : Symbol) :
    weight sym.toNullable.display ≤ weight sym.display + 1 := by
  unfold toNullable
  split
  · exact Nat.le_succ _
  · rw [weight_append]
    exact Nat.le_refl _

theorem weight_argumentDisplay (syms : List Symbol) :
    weight (argumentDisplay syms) = min 1 syms.length + weights (syms.map (·.display)) := by
  cases syms with
  | nil => rfl
  | cons sym syms =>
    rw [argumentDisplay, weight_append, weight_append, weight_intercalate (by decide)]
    · rw [List.length_cons, Nat.min_eq_left (Nat.succ_le_succ (Nat.zero_le _))]
      rfl
    · intro h
      cases h

theorem weight_ofKnown_le {t : KnownType} (h : TypeExpr.isPath t.fullName = true)
    (syms : List Symbol) :
    weight (ofKnown t syms).display ≤ weight (argumentDisplay syms) := by
  by_cases hc : Collapses t syms
  · cases syms with
    | nil =>
      obtain ⟨k, hk, hsym⟩ := exists_keyword_of_collapses hc
      have hall : ∀ k ∈ Catalog.keywordTypes, weight k.keyword = 0 := by decide +kernel
      rw [hsym]
      exact Nat.le_of_eq (hall k (List.mem_of_find?_eq_some hk))
    | cons sym syms =>
      have := weight_toNullable_le sym
      rw [ofKnown_of_collapses hc, weight_argumentDisplay, List.map_cons, weights, List.length_cons]
      omega
  · refine Nat.le_of_eq ?_
    rw [ofKnown_of_not_collapses hc, weight_append, weight_of_isPath h, Nat.zero_add]

theorem weight_arrayOf (sym : Symbol) (commas : Nat) :
    weight (sym.arrayOf commas).display = weight sym.display := by
  have hcommas : weight ("".pushn ',' commas) = 0 := by
    rw [weight, toList_commas, List.countP_replicate]
    rfl
  rw [arrayOf, weight_append, weight_append, weight_append, hcommas]
  rfl

theorem weight_tupleOf (shown : List String) :
    weight (tupleOf shown).display = weights shown := by
  rw [tupleOf, weight_append, weight_append, weight_intercalate (by decide)]
  exact Nat.zero_add _

end Symbol

theorem TupleElement.weight_shown_le {e : TupleElement} {sym sym' : Symbol}
    (h : weight sym'.display ≤ weight sym.display) :
    weight (e.shown sym') ≤ weight (e.shown sym) := by
  unfold shown
  split
  · exact h
  · simp only [weight_append]
    omega

theorem TupleElement.display_of_shown_eq {e : TupleElement} {sym sym' : Symbol}
    (h : e.shown sym = e.shown sym') : sym.display = sym'.display := by
  unfold shown at h
  split at h
  · exact h
  · exact (String.append_left_inj _).1 ((String.append_left_inj _).1 h)

namespace Model

variable {aliased? : String → Option Symbol} {m : Model} {s : Scope}

theorem weight_resolveArgs_le : ∀ {args : List (TypeExpr × Symbol)} {syms : List Symbol},
    (∀ a ∈ args, ∀ sym, resolveWith aliased? m s a.1 = some sym →
      weight sym.display ≤ weight a.2.display) →
    resolveArgs aliased? m s (args.map fun a => .given a.1) = some syms →
      weights (syms.map (·.display)) ≤ weights (args.map (·.2.display))
  | [], syms, _, h => by
    rw [List.map_nil, resolveArgs] at h
    cases h
    exact Nat.le_refl _
  | a :: as, syms, hle, h => by
    rw [List.forall_mem_cons] at hle
    rw [List.map_cons, resolveArgs, resolveArg] at h
    obtain ⟨x, hx, h⟩ := Option.bind_eq_some_iff.1 h
    obtain ⟨xs, hxs, h⟩ := Option.bind_eq_some_iff.1 h
    cases h
    have hhead := hle.1 x hx
    have htail := weight_resolveArgs_le hle.2 hxs
    simp only [List.map_cons, weights]
    omega

theorem weight_displayElements_le : ∀ {es : List (TupleElement × Symbol)} {shown : List String},
    (∀ e ∈ es, ∀ sym, resolveWith aliased? m s e.1.type = some sym →
      weight sym.display ≤ weight e.2.display) →
    displayElements aliased? m s (es.map (·.1)) = some shown →
      weights shown ≤ weights (es.map fun e => e.1.shown e.2)
  | [], shown, _, h => by
    rw [List.map_nil, displayElements] at h
    cases h
    exact Nat.le_refl _
  | e :: es, shown, hle, h => by
    rw [List.forall_mem_cons] at hle
    rw [List.map_cons, displayElements, displayElement_eq] at h
    obtain ⟨x, hx, h⟩ := Option.bind_eq_some_iff.1 h
    obtain ⟨xs, hxs, h⟩ := Option.bind_eq_some_iff.1 h
    cases h
    obtain ⟨sym, hsym, rfl⟩ := Option.map_eq_some_iff.1 hx
    have hhead := TupleElement.weight_shown_le (e := e.1) (hle.1 sym hsym)
    have htail := weight_displayElements_le hle.2 hxs
    simp only [List.map_cons, weights]
    omega

theorem length_displayElements {es : List TupleElement} {shown : List String}
    (h : displayElements aliased? m s es = some shown) : shown.length = es.length := by
  induction es generalizing shown with
  | nil =>
    rw [displayElements] at h
    cases h
    rfl
  | cons e es ih =>
    rw [displayElements] at h
    obtain ⟨x, -, h⟩ := Option.bind_eq_some_iff.1 h
    obtain ⟨xs, hxs, h⟩ := Option.bind_eq_some_iff.1 h
    cases h
    rw [List.length_cons, List.length_cons, ih hxs]

/-- A tuple's elements are resolved one by one. -/
theorem resolveWith_tuple {first second : TupleElement} {rest : List TupleElement} {sym : Symbol} :
    resolveWith aliased? m s (.tuple first second rest) = some sym ↔
      ∃ shown, displayElements aliased? m s (first :: second :: rest) = some shown ∧
        sym = .tupleOf shown := by
  rw [resolveWith, displayElements, displayElements]
  simp only [Option.bind_eq_bind, Option.pure_def, Option.bind_eq_some_iff, Option.some.injEq]
  constructor
  · rintro ⟨a, ha, b, hb, cs, hcs, rfl⟩
    exact ⟨_, ⟨a, ha, _, ⟨b, hb, cs, hcs, rfl⟩, rfl⟩, rfl⟩
  · rintro ⟨_, ⟨a, ha, _, ⟨b, hb, cs, hcs, rfl⟩, rfl⟩, rfl⟩
    exact ⟨a, ha, b, hb, cs, hcs, rfl⟩

end Model

namespace Canonical

variable {aliased? : String → Option Symbol} {m : Model} {s : Scope} {t : TypeExpr} {sym : Symbol}

/-- What a name with arguments finds adds no weight to that of its arguments. -/
theorem weight_resolve_ofPath_le (hplain : m.Plain) {path : String} {k : KnownType}
    {args : List (TypeExpr × Symbol)} {sym' : Symbol}
    (hle : ∀ a ∈ args, ∀ sym, Model.resolveWith aliased? m s a.1 = some sym →
      weight sym.display ≤ weight a.2.display)
    (hfound : m.known? s none path args.length = some k)
    (h : Model.resolveWith aliased? m s (.ofPath path (args.map fun a => .given a.1))
      = some sym') :
    weight sym'.display ≤ weight (Symbol.argumentDisplay (args.map (·.2))) := by
  rw [← List.length_map fun a : TypeExpr × Symbol => TypeArg.given a.1] at hfound
  obtain ⟨syms, hsyms, rfl⟩ := (Model.resolveWith_ofPath hfound).1 h
  have hlen := Model.length_resolveArgs hsyms
  have hpath := hplain.paths k (Model.type?_some (Model.type?_of_known? hfound)).1
  have hsum := Model.weight_resolveArgs_le hle hsyms
  refine Nat.le_trans (Symbol.weight_ofKnown_le hpath syms) ?_
  rw [Symbol.weight_argumentDisplay, Symbol.weight_argumentDisplay, List.length_map, List.map_map,
    hlen, List.length_map]
  exact Nat.add_le_add_left hsum _

/-- No scope gives a canonical type a heavier display than its own. -/
theorem weight_resolve_le (hplain : m.Plain) (h : Canonical m t sym) :
    ∀ sym', Model.resolveWith aliased? m s t = some sym' →
      weight sym'.display ≤ weight sym.display := by
  induction h with
  | keyword hword =>
    intro sym' h
    rw [Model.resolveWith, hword] at h
    cases h
    exact Nat.le_refl _
  | @known t args _ hknown _ hfull ih =>
    intro sym' h
    obtain ⟨k', hk'⟩ := Option.ne_none_iff_exists'.1 (Model.known?_ne_none (s := s) hknown)
    rw [Symbol.ofKnown_of_not_collapses hfull, weight_append]
    exact Nat.le_trans (weight_resolve_ofPath_le hplain ih hk' h) (Nat.le_add_left _ _)
  | @nullable type sym _ hunmarked ih =>
    intro sym' h
    rw [Model.resolveWith] at h
    obtain ⟨x, hx, rfl⟩ := Option.map_eq_some_iff.1 h
    have hle := Symbol.weight_toNullable_le x
    have := ih x hx
    rw [Symbol.toNullable_of_unmarked hunmarked, weight_append]
    exact Nat.le_trans hle (Nat.succ_le_succ this)
  | @array type sym commas _ ih =>
    intro sym' h
    rw [Model.resolveWith] at h
    obtain ⟨x, hx, rfl⟩ := Option.map_eq_some_iff.1 h
    rw [Symbol.weight_arrayOf, Symbol.weight_arrayOf]
    exact ih x hx
  | @tuple first second rest _ _ ih =>
    intro sym' h
    obtain ⟨shown, hshown, rfl⟩ := Model.resolveWith_tuple.1 h
    rw [Symbol.weight_tupleOf, Symbol.weight_tupleOf]
    exact Model.weight_displayElements_le ih hshown

theorem symbol_unique {sym' : Symbol} (h : Canonical m t sym) (h' : Canonical m t sym') :
    sym = sym' :=
  (h.unique h' (by rw [← h.print_eq, ← h'.print_eq])).2

/-- Symbols of the same canonical types are the same. -/
theorem pairs_unique {α : Type} (type : α → TypeExpr) : ∀ {as bs : List (α × Symbol)},
    (∀ a ∈ as, Canonical m (type a.1) a.2) → (∀ b ∈ bs, Canonical m (type b.1) b.2) →
      as.map (·.1) = bs.map (·.1) → as = bs
  | [], [], _, _, _ => rfl
  | (x, a) :: as, (y, b) :: bs, ha, hb, h => by
    rw [List.forall_mem_cons] at ha hb
    rw [List.map_cons, List.map_cons, List.cons.injEq] at h
    obtain ⟨rfl, h⟩ := h
    obtain rfl : a = b := ha.1.symbol_unique hb.1
    rw [pairs_unique type ha.2 hb.2 h]

theorem allWellFormed_given {args : List (TypeExpr × Symbol)}
    (h : ∀ a ∈ args, Canonical m a.1 a.2) :
    TypeArg.AllWellFormed (args.map fun a => .given a.1) := by
  have hall : ∀ u ∈ args.map (·.1), u.WellFormed :=
    List.forall_mem_map.2 fun a ha => (h a ha).wellFormed
  have := TypeArg.allWellFormed_given hall
  rwa [List.map_map] at this

theorem allWellFormed_elements {es : List (TupleElement × Symbol)}
    (h : ∀ e ∈ es, Canonical m e.1.type e.2)
    (hnames : ∀ e ∈ es, ∀ n, e.1.name = some n → isName n = true) :
    TupleElement.AllWellFormed (es.map (·.1)) :=
  TupleElement.allWellFormed_iff.2 (List.forall_mem_map.2 fun e he =>
    TupleElement.wellFormed_iff.2 ⟨(h e he).wellFormed, hnames e he⟩)

section Exact

variable (hplain : m.Plain)
  (haliased : ∀ name sym, aliased? name = some sym → ∃ t, Canonical m t sym)

include hplain haliased

/-- A name with arguments that finds a type denotes a given type of the model only if it finds just
this type and the arguments denote its own. -/
theorem resolve_ofPath_iff {k k' : KnownType} {path : String} {args : List (TypeExpr × Symbol)}
    (hpath : TypeExpr.isPath k.fullName = true) (hknown : m.type? k.fullName args.length = some k)
    (hargs : ∀ a ∈ args, Canonical m a.1 a.2) (hfull : ¬ Symbol.Collapses k (args.map (·.2)))
    (hfound : m.known? s none path args.length = some k') :
    Model.resolveWith aliased? m s (.ofPath path (args.map fun a => .given a.1))
        = some (.ofKnown k (args.map (·.2))) ↔
      k' = k ∧ ∀ a ∈ args, Model.resolveWith aliased? m s a.1 = some a.2 := by
  rw [← List.length_map fun a : TypeExpr × Symbol => TypeArg.given a.1] at hfound
  rw [Model.resolveWith_ofPath hfound]
  constructor
  · rintro ⟨syms, hsyms, heq⟩
    obtain ⟨args', rfl, hargs'⟩ := Model.canonical_resolveArgs hplain haliased _
      (allWellFormed_given hargs) hsyms
    have hlen := Model.length_resolveArgs hsyms
    rw [List.length_map, List.length_map] at hlen
    have hself := Model.type?_of_known? hfound
    rw [List.length_map, ← hlen] at hself
    have hown := Canonical.known hpath hknown hargs hfull
    by_cases hc : Symbol.Collapses k' (args'.map (·.2))
    · exfalso
      cases args' with
      | nil =>
        obtain ⟨w, hw⟩ := Option.isSome_iff_exists.1 hc
        have hsym : Symbol.ofKnown k' [] = .ofKeywordType w := by rw [Symbol.ofKnown, hw]
        rw [heq, List.map_nil, hsym] at hown
        cases (hown.unique (.keyword (Symbol.ofKeyword?_of_ofFullName? hw)) rfl).1
      | cons a as =>
        have hsym : Symbol.ofKnown k' ((a :: as).map (·.2)) = a.2.toNullable := if_pos hc
        have hmark := Symbol.isNullable_toNullable a.2
        rw [← hsym, ← heq, Symbol.ofKnown_of_not_collapses hfull] at hmark
        cases hmark
    · have hpath' := hplain.paths k' (Model.type?_some hself).1
      have hother := Canonical.known hpath' hself hargs' hc
      rw [← heq] at hother
      obtain ⟨hname, htypes⟩ := TypeExpr.ofPath_injective (hown.unique hother rfl).1
      have hmap : args.map (·.1) = args'.map (·.1) := by
        refine (List.map_inj_right fun x y h => TypeArg.given.inj h).1 ?_
        rw [List.map_map, List.map_map]
        exact htypes
      obtain rfl := pairs_unique id hargs hargs' hmap
      rw [← hname, hknown, Option.some.injEq] at hself
      exact ⟨hself.symm, Model.resolveArgs_given.1 hsyms⟩
  · rintro ⟨rfl, hresolve⟩
    exact ⟨_, Model.resolveArgs_given.2 hresolve, rfl⟩

theorem resolve_of_displayElements : ∀ {es : List (TupleElement × Symbol)},
    (∀ e ∈ es, Canonical m e.1.type e.2) →
    Model.displayElements aliased? m s (es.map (·.1)) = some (es.map fun e => e.1.shown e.2) →
      ∀ e ∈ es, Model.resolveWith aliased? m s e.1.type = some e.2
  | [], _, _ => by simp
  | e :: es, hes, h => by
    rw [List.forall_mem_cons] at hes
    rw [List.map_cons, Model.displayElements, Model.displayElement_eq, List.map_cons] at h
    obtain ⟨x, hx, h⟩ := Option.bind_eq_some_iff.1 h
    obtain ⟨xs, hxs, h⟩ := Option.bind_eq_some_iff.1 h
    obtain ⟨sym, hsym, rfl⟩ := Option.map_eq_some_iff.1 hx
    simp only [Option.pure_def, Option.some.injEq, List.cons.injEq] at h
    obtain ⟨hshown, rfl⟩ := h
    obtain ⟨_, hcanonical⟩ := Model.canonical_resolveWith hplain haliased _ hes.1.wellFormed hsym
    obtain rfl := (hcanonical.unique hes.1 (TupleElement.display_of_shown_eq hshown)).2
    exact List.forall_mem_cons.2 ⟨hsym, resolve_of_displayElements hes.2 hxs⟩

/-- A tuple denotes its own symbol only if its elements do. -/
theorem resolve_tuple_iff {first second : TupleElement × Symbol}
    {rest : List (TupleElement × Symbol)}
    (htypes : ∀ e ∈ first :: second :: rest, Canonical m e.1.type e.2)
    (hnames : ∀ e ∈ first :: second :: rest, ∀ n, e.1.name = some n → isName n = true) :
    Model.resolveWith aliased? m s (.tuple first.1 second.1 (rest.map (·.1)))
        = some (.tupleOf ((first :: second :: rest).map fun e => e.1.shown e.2)) ↔
      ∀ e ∈ first :: second :: rest, Model.resolveWith aliased? m s e.1.type = some e.2 := by
  rw [Model.resolveWith_tuple]
  constructor
  · rintro ⟨shown, hshown, heq⟩
    have hlen := Model.length_displayElements hshown
    obtain ⟨ds, hds, hdnames, rfl⟩ := Model.canonical_displayElements hplain haliased _
      (allWellFormed_elements htypes hnames) hshown
    match ds, hlen with
    | a :: b :: cs, _ =>
      have hown := Canonical.tuple htypes hnames
      have hother := Canonical.tuple hds hdnames
      rw [← heq] at hother
      have htuple := (hown.unique hother rfl).1
      rw [TypeExpr.tuple.injEq] at htuple
      have hsame : first :: second :: rest = a :: b :: cs :=
        pairs_unique TupleElement.type htypes hds (by simp [htuple])
      rw [← hsame] at hshown
      exact resolve_of_displayElements hplain haliased htypes hshown
  · intro h
    exact ⟨_, Model.displayElements_map h, rfl⟩

/-- A canonical type denotes its own symbol exactly where its names reach their types. -/
theorem resolve_iff (h : Canonical m t sym) :
    Model.resolveWith aliased? m s t = some sym ↔ t.AllNames (m.Reaches s) := by
  refine ⟨fun hr => ?_, h.resolve⟩
  induction h with
  | keyword _ =>
    rw [TypeExpr.AllNames]
    trivial
  | known hpath hknown hargs hfull ih =>
    obtain ⟨k', hk'⟩ := Option.ne_none_iff_exists'.1 (Model.known?_ne_none (s := s) hknown)
    obtain ⟨rfl, hresolve⟩ :=
      (resolve_ofPath_iff hplain haliased hpath hknown hargs hfull hk').1 hr
    exact TypeExpr.allNames_ofPath.2
      ⟨hk'.trans hknown.symm, fun a ha => ih a ha (hresolve a ha)⟩
  | @nullable type sym htype hunmarked ih =>
    rw [Model.resolveWith] at hr
    obtain ⟨x, hx, heq⟩ := Option.map_eq_some_iff.1 hr
    obtain ⟨u, hu⟩ := Model.canonical_resolveWith hplain haliased type htype.wellFormed hx
    have hnullable := Canonical.nullable htype hunmarked
    rw [TypeExpr.AllNames]
    refine ih ?_
    cases hmark : x.isNullable with
    | false =>
      obtain ⟨htypes, -⟩ := (Canonical.nullable hu hmark).unique hnullable (by rw [heq])
      rw [TypeExpr.nullable.injEq] at htypes
      subst htypes
      rw [hx, hu.symbol_unique htype]
    | true =>
      -- The mark would come from inside, which the weight of the display leaves no room for.
      rw [Symbol.toNullable, if_pos hmark, Symbol.toNullable_of_unmarked hunmarked] at heq
      have hle := htype.weight_resolve_le hplain x hx
      rw [heq, weight_append] at hle
      exact absurd hle (Nat.not_succ_le_self _)
  | @array type sym commas htype ih =>
    rw [Model.resolveWith] at hr
    obtain ⟨x, hx, heq⟩ := Option.map_eq_some_iff.1 hr
    obtain ⟨u, hu⟩ := Model.canonical_resolveWith hplain haliased type htype.wellFormed hx
    obtain ⟨htypes, -⟩ := (Canonical.array commas hu).unique (.array commas htype) (by rw [heq])
    rw [TypeExpr.array.injEq] at htypes
    rw [TypeExpr.AllNames]
    refine ih ?_
    rw [htypes.1] at hu
    rw [hx, hu.symbol_unique htype]
  | tuple htypes hnames ih =>
    exact TypeExpr.allNames_tuple.2 fun e he =>
      ih e he ((resolve_tuple_iff hplain haliased htypes hnames).1 hr e he)

end Exact

end Canonical

end TaskWrappers
