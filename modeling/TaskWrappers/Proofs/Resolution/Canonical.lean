import TaskWrappers.Proofs.Resolution.Lookup
import TaskWrappers.Proofs.TypeExpr.RoundTrip

/-!
# Canonical types

`Canonical m t sym` says that `t` is the one written form of `sym`: names in full, the keyword where
there is one, `?` for a nullable value. It is well formed and printed as the display of `sym`
(`Canonical.print_eq`), and it resolves to `sym` wherever all of its names reach the types of these
names (`Canonical.resolve`), so in the global scope without any condition. Hence a display belongs
to one canonical type and to one symbol (`Canonical.unique`).
-/

namespace TaskWrappers

open Text

namespace TupleElement

def type : TupleElement → TypeExpr
  | ⟨t, _⟩ => t

def name : TupleElement → Option String
  | ⟨_, n⟩ => n

/-- The element with its type displayed as the given symbol. -/
def shown (e : TupleElement) (sym : Symbol) : String :=
  match e.name with
  | none => sym.display
  | some n => sym.display ++ " " ++ n

end TupleElement

mutual

/-- Whether all names in a type, each with its number of arguments, have a property. -/
def TypeExpr.AllNames (P : String → Nat → Prop) : TypeExpr → Prop
  | .keyword _ => True
  | .named _ outer last =>
    P (Scope.dotted ((outer ++ [last]).map Segment.name)) last.args.length ∧ last.AllNames P
  | .nullable inner => inner.AllNames P
  | .array element _ => element.AllNames P
  | .tuple first second rest =>
    first.AllNames P ∧ second.AllNames P ∧ TupleElement.EachAllNames P rest

def Segment.AllNames (P : String → Nat → Prop) : Segment → Prop
  | .plain _ => True
  | .generic _ first rest => first.AllNames P ∧ TypeArg.EachAllNames P rest

def TypeArg.AllNames (P : String → Nat → Prop) : TypeArg → Prop
  | .omitted => True
  | .given type => type.AllNames P

def TypeArg.EachAllNames (P : String → Nat → Prop) : List TypeArg → Prop
  | [] => True
  | a :: as => a.AllNames P ∧ TypeArg.EachAllNames P as

def TupleElement.AllNames (P : String → Nat → Prop) : TupleElement → Prop
  | ⟨type, _⟩ => type.AllNames P

def TupleElement.EachAllNames (P : String → Nat → Prop) : List TupleElement → Prop
  | [] => True
  | e :: es => e.AllNames P ∧ TupleElement.EachAllNames P es

end

namespace Symbol

/-- Whether a known type with the given arguments has a shorter written form than its full name with
them: the keyword that names it, or the value that it makes nullable. -/
def Collapses (t : KnownType) : List Symbol → Prop
  | [] => (Catalog.ofFullName? t.fullName).isSome
  | arg :: rest => t.fullName = "System.Nullable" ∧ rest.isEmpty ∧ !arg.isReference

/-- The display of type arguments, empty if there are none. -/
def argumentDisplay : List Symbol → String
  | [] => ""
  | args => "<" ++ ", ".intercalate (args.map (·.display)) ++ ">"

theorem toNullable_of_unmarked {sym : Symbol} (h : sym.isNullable = false) :
    sym.toNullable = ⟨sym.display ++ "?", sym.space, sym.isReference, true⟩ := by
  rw [toNullable, if_neg (by simp [h])]

theorem isNullable_toNullable (sym : Symbol) : sym.toNullable.isNullable = true := by
  unfold toNullable
  split
  · assumption
  · rfl

theorem ofKnown_of_not_collapses {t : KnownType} : ∀ {args : List Symbol}, ¬ Collapses t args →
    ofKnown t args = ⟨t.fullName ++ argumentDisplay args, t.space, t.isReference, false⟩
  | [], h => by
    have hnone : Catalog.ofFullName? t.fullName = none := by simpa [Collapses] using h
    rw [ofKnown, hnone, argumentDisplay, String.append_empty]
  | arg :: args, h => by
    rw [ofKnown, if_neg (by simpa only [Collapses] using h), argumentDisplay]
    · simp only [String.append_assoc]
    · intro h
      cases h

theorem ofKnown_of_collapses {t : KnownType} {arg : Symbol} {args : List Symbol}
    (h : Collapses t (arg :: args)) : ofKnown t (arg :: args) = arg.toNullable :=
  if_pos h

theorem exists_keyword_of_collapses {t : KnownType} (h : Collapses t []) :
    ∃ k, Catalog.ofFullName? t.fullName = some k ∧ ofKnown t [] = ofKeywordType k := by
  obtain ⟨k, hk⟩ := Option.isSome_iff_exists.1 h
  exact ⟨k, hk, by rw [ofKnown, hk]⟩

end Symbol

inductive Canonical (m : Model) : TypeExpr → Symbol → Prop where
  | keyword {word : String} {sym : Symbol} (hword : Symbol.ofKeyword? word = some sym) :
      Canonical m (.keyword word) sym
  | known {t : KnownType} {args : List (TypeExpr × Symbol)}
      (hpath : TypeExpr.isPath t.fullName = true)
      (hknown : m.type? t.fullName args.length = some t)
      (hargs : ∀ a ∈ args, Canonical m a.1 a.2)
      (hfull : ¬ Symbol.Collapses t (args.map (·.2))) :
      Canonical m (.ofPath t.fullName (args.map fun a => .given a.1))
        (.ofKnown t (args.map (·.2)))
  | nullable {type : TypeExpr} {sym : Symbol} (htype : Canonical m type sym)
      (hunmarked : sym.isNullable = false) : Canonical m (.nullable type) sym.toNullable
  | array {type : TypeExpr} {sym : Symbol} (commas : Nat) (htype : Canonical m type sym) :
      Canonical m (.array type commas) (sym.arrayOf commas)
  | tuple {first second : TupleElement × Symbol} {rest : List (TupleElement × Symbol)}
      (htypes : ∀ e ∈ first :: second :: rest, Canonical m e.1.type e.2)
      (hnames : ∀ e ∈ first :: second :: rest, ∀ n, e.1.name = some n → isName n = true) :
      Canonical m (.tuple first.1 second.1 (rest.map (·.1)))
        (.tupleOf ((first :: second :: rest).map fun e => e.1.shown e.2))

section Keywords

theorem Symbol.mem_keywords_of_ofKeyword? {word : String} {sym : Symbol}
    (h : ofKeyword? word = some sym) :
    word ∈ TypeExpr.keywords ∧ sym.display = word ∧ sym.isNullable = false := by
  unfold ofKeyword? at h
  split at h
  · rename_i hword
    cases h
    subst hword
    exact ⟨by decide, rfl, rfl⟩
  · obtain ⟨k, hk, rfl⟩ := Option.map_eq_some_iff.1 h
    have heq : k.keyword = word := by simpa using List.find?_some hk
    have hall : ∀ k ∈ Catalog.keywordTypes, k.keyword ∈ TypeExpr.keywords := by decide
    rw [← heq]
    exact ⟨hall k (List.mem_of_find?_eq_some hk), rfl, rfl⟩

/-- A keyword's own type is what the keyword resolves to. -/
theorem Symbol.ofKeyword?_of_ofFullName? {fullName : String} {k : KeywordType}
    (h : Catalog.ofFullName? fullName = some k) :
    ofKeyword? k.keyword = some (ofKeywordType k) := by
  have hall : ∀ k ∈ Catalog.keywordTypes, ofKeyword? k.keyword = some (ofKeywordType k) := by decide
  exact hall k (List.mem_of_find?_eq_some h)

end Keywords

section WellFormed

theorem TypeArg.allWellFormed_given : ∀ {types : List TypeExpr}, (∀ t ∈ types, t.WellFormed) →
    TypeArg.AllWellFormed (types.map .given)
  | [], _ => by
    rw [List.map_nil, TypeArg.AllWellFormed]
    trivial
  | t :: ts, h => by
    rw [List.map_cons, TypeArg.AllWellFormed, TypeArg.WellFormed]
    exact ⟨h t List.mem_cons_self,
      allWellFormed_given fun u hu => h u (List.mem_cons_of_mem _ hu)⟩

theorem TupleElement.wellFormed_iff {e : TupleElement} :
    e.WellFormed ↔ e.type.WellFormed ∧ ∀ n, e.name = some n → isName n = true := by
  cases e
  rw [TupleElement.WellFormed]
  rfl

theorem TupleElement.allWellFormed_iff {es : List TupleElement} :
    TupleElement.AllWellFormed es ↔ ∀ e ∈ es, e.WellFormed := by
  induction es with
  | nil => simp [TupleElement.AllWellFormed]
  | cons e es ih => rw [TupleElement.AllWellFormed, ih, List.forall_mem_cons]

end WellFormed

section Print

theorem TypeArg.printRest_given (head : String) (types : List TypeExpr) :
    head ++ TypeArg.printRest ", " (types.map .given)
      = ", ".intercalate (head :: types.map TypeExpr.print) := by
  induction types generalizing head with
  | nil => simp [TypeArg.printRest]
  | cons t ts ih =>
    rw [List.map_cons, TypeArg.printRest, TypeArg.print, List.map_cons,
      String.intercalate_cons_cons, ← ih, String.append_assoc, String.append_assoc]

theorem TypeExpr.argumentList_given {args : List (TypeExpr × Symbol)}
    (h : ∀ a ∈ args, a.1.print = a.2.display) :
    argumentList (args.map fun a => .given a.1)
      = Symbol.argumentDisplay (args.map (·.2)) := by
  cases args with
  | nil => rfl
  | cons a as =>
    have hmap : as.map (fun a => a.1.print) = as.map (fun a => a.2.display) :=
      List.map_congr_left fun b hb => h b (List.mem_cons_of_mem _ hb)
    have hrest : a.1.print ++ TypeArg.printRest ", " (as.map fun a => .given a.1)
        = ", ".intercalate (a.2.display :: as.map fun a => a.2.display) := by
      have := TypeArg.printRest_given a.1.print (as.map (·.1))
      rw [List.map_map, List.map_map] at this
      rw [← hmap, ← h a List.mem_cons_self]
      exact this
    rw [List.map_cons, argumentList, if_neg (by simp [TypeArg.isOmitted]), TypeArg.print,
      Symbol.argumentDisplay, List.map_cons, List.map_cons, List.map_map, Function.comp_def,
      ← hrest, ← String.append_assoc]
    · intro h
      cases h

theorem TupleElement.print_eq_shown {e : TupleElement} {sym : Symbol}
    (h : e.type.print = sym.display) : e.print = e.shown sym := by
  obtain ⟨t, n⟩ := e
  cases n with
  | none => rwa [TupleElement.print]
  | some n =>
    rw [TupleElement.print, show t.print = sym.display from h]
    rfl

theorem TupleElement.printRest_map (head : String) : ∀ (es : List (TupleElement × Symbol)),
    (∀ e ∈ es, e.1.print = e.1.shown e.2) →
    head ++ TupleElement.printRest (es.map (·.1))
      = ", ".intercalate (head :: es.map fun e => e.1.shown e.2)
  | [], _ => by simp [TupleElement.printRest]
  | e :: es, h => by
    have ih := printRest_map e.1.print es fun d hd => h d (List.mem_cons_of_mem _ hd)
    rw [List.map_cons, TupleElement.printRest, String.append_assoc, ih, h e List.mem_cons_self,
      List.map_cons, String.intercalate_cons_cons, String.append_assoc]

end Print

namespace Canonical

variable {m : Model} {t : TypeExpr} {sym : Symbol}

theorem wellFormed (h : Canonical m t sym) : t.WellFormed := by
  induction h with
  | keyword hword =>
    rw [TypeExpr.WellFormed]
    exact (Symbol.mem_keywords_of_ofKeyword? hword).1
  | @known t args hpath _ _ _ ih =>
    refine TypeExpr.wellFormed_ofPath hpath ?_
    have hall : ∀ u ∈ args.map (·.1), u.WellFormed := List.forall_mem_map.2 ih
    have := TypeArg.allWellFormed_given hall
    rwa [List.map_map] at this
  | nullable _ _ ih => rwa [TypeExpr.WellFormed]
  | array _ _ ih => rwa [TypeExpr.WellFormed]
  | @tuple first second rest _ hnames ih =>
    have hall : ∀ e ∈ first :: second :: rest, e.1.WellFormed := fun e he =>
      TupleElement.wellFormed_iff.2 ⟨ih e he, hnames e he⟩
    rw [List.forall_mem_cons, List.forall_mem_cons] at hall
    rw [TypeExpr.WellFormed, TupleElement.allWellFormed_iff, List.forall_mem_map]
    exact hall

theorem print_eq (h : Canonical m t sym) : t.print = sym.display := by
  induction h with
  | keyword hword =>
    rw [TypeExpr.print]
    exact (Symbol.mem_keywords_of_ofKeyword? hword).2.1.symm
  | known _ _ _ hfull ih =>
    rw [TypeExpr.print_ofPath, Symbol.ofKnown_of_not_collapses hfull,
      TypeExpr.argumentList_given ih]
  | nullable _ hunmarked ih => rw [TypeExpr.print, ih, Symbol.toNullable_of_unmarked hunmarked]
  | array commas _ ih =>
    rw [TypeExpr.print, ih]
    rfl
  | @tuple first second rest _ _ ih =>
    have hall : ∀ e ∈ first :: second :: rest, e.1.print = e.1.shown e.2 := fun e he =>
      TupleElement.print_eq_shown (ih e he)
    rw [List.forall_mem_cons, List.forall_mem_cons] at hall
    obtain ⟨hfirst, hsecond, hrest⟩ := hall
    have hlist := TupleElement.printRest_map second.1.print rest hrest
    rw [TypeExpr.print, Symbol.tupleOf, List.map_cons, List.map_cons, String.intercalate_cons_cons,
      ← hfirst, ← hsecond, ← hlist]
    simp only [String.append_assoc]

end Canonical

section AllNames

variable {P : String → Nat → Prop}

theorem TypeArg.eachAllNames_given : ∀ {args : List (TypeExpr × Symbol)},
    TypeArg.EachAllNames P (args.map fun a => .given a.1) ↔ ∀ a ∈ args, a.1.AllNames P
  | [] => by simp [TypeArg.EachAllNames]
  | a :: as => by
    rw [List.map_cons, TypeArg.EachAllNames, TypeArg.AllNames, eachAllNames_given,
      List.forall_mem_cons]

theorem TupleElement.eachAllNames_map : ∀ {es : List (TupleElement × Symbol)},
    TupleElement.EachAllNames P (es.map (·.1)) ↔ ∀ e ∈ es, e.1.type.AllNames P
  | [] => by simp [TupleElement.EachAllNames]
  | (e, _) :: es => by
    obtain ⟨t, n⟩ := e
    rw [List.map_cons, TupleElement.EachAllNames, TupleElement.AllNames, eachAllNames_map,
      List.forall_mem_cons]
    rfl

theorem Segment.allNames_ofArgs (name : String) (args : List TypeArg) :
    (ofArgs name args).AllNames P ↔ TypeArg.EachAllNames P args := by
  cases args <;> rw [ofArgs, AllNames, TypeArg.EachAllNames]

theorem TypeExpr.allNames_ofPath {path : String} {args : List (TypeExpr × Symbol)} :
    (ofPath path (args.map fun a => .given a.1)).AllNames P ↔
      P path args.length ∧ ∀ a ∈ args, a.1.AllNames P := by
  rw [ofPath, AllNames, dotted_ofPath, Segment.args_ofArgs, List.length_map,
    Segment.allNames_ofArgs, TypeArg.eachAllNames_given]

theorem TypeExpr.allNames_tuple {first second : TupleElement × Symbol}
    {rest : List (TupleElement × Symbol)} :
    (tuple first.1 second.1 (rest.map (·.1))).AllNames P ↔
      ∀ e ∈ first :: second :: rest, e.1.type.AllNames P := by
  rw [← TupleElement.eachAllNames_map, List.map_cons, List.map_cons, AllNames,
    TupleElement.EachAllNames, TupleElement.EachAllNames]

end AllNames

namespace Model

variable {aliased? : String → Option Symbol} {m : Model} {s : Scope}

theorem resolveArgs_given : ∀ {args : List (TypeExpr × Symbol)},
    resolveArgs aliased? m s (args.map fun a => .given a.1) = some (args.map (·.2)) ↔
      ∀ a ∈ args, resolveWith aliased? m s a.1 = some a.2
  | [] => by simp [resolveArgs]
  | a :: as => by
    rw [List.map_cons, resolveArgs, resolveArg, List.forall_mem_cons, ← resolveArgs_given,
      Option.bind_eq_bind, Option.bind_eq_some_iff]
    constructor
    · rintro ⟨x, hx, h⟩
      obtain ⟨xs, hxs, h⟩ := Option.bind_eq_some_iff.1 h
      cases h
      exact ⟨hx, hxs⟩
    · rintro ⟨hx, hxs⟩
      exact ⟨a.2, hx, by rw [hxs]; rfl⟩

theorem length_resolveArgs {args : List TypeArg} {syms : List Symbol}
    (h : resolveArgs aliased? m s args = some syms) : syms.length = args.length := by
  induction args generalizing syms with
  | nil =>
    rw [resolveArgs] at h
    cases h
    rfl
  | cons a as ih =>
    rw [resolveArgs] at h
    obtain ⟨x, -, h⟩ := Option.bind_eq_some_iff.1 h
    obtain ⟨xs, hxs, h⟩ := Option.bind_eq_some_iff.1 h
    cases h
    rw [List.length_cons, List.length_cons, ih hxs]

/-- A name is looked up once its arguments are resolved. -/
theorem resolveWith_named (qualifier : Option String) (outer : List Segment) (last : Segment) :
    resolveWith aliased? m s (.named qualifier outer last)
      = (resolveArgs aliased? m s last.args).bind fun syms =>
          named aliased? m s qualifier outer last syms := by
  cases last with
  | plain name => rw [resolveWith, Segment.args, resolveArgs, Option.bind_some]
  | generic name first rest =>
    rw [resolveWith, Segment.args, resolveArgs]
    simp only [Option.bind_eq_bind, Option.pure_def, Option.bind_assoc, Option.bind_some]

theorem resolveWith_ofPath_eq (path : String) (args : List TypeArg) :
    resolveWith aliased? m s (.ofPath path args)
      = (resolveArgs aliased? m s args).bind fun syms =>
        named aliased? m s none ((Text.dotParts path).dropLast.map .plain)
          (.ofArgs ((Text.dotParts path).getLast (Text.dotParts_ne_nil path)) args) syms := by
  rw [TypeExpr.ofPath, resolveWith_named, Segment.args_ofArgs]

theorem named_ofPath {path : String} (args : List TypeArg) {syms : List Symbol} {t : KnownType}
    (hknown : m.known? s none path syms.length = some t) :
    named aliased? m s none ((Text.dotParts path).dropLast.map .plain)
      (.ofArgs ((Text.dotParts path).getLast (Text.dotParts_ne_nil path)) args) syms
        = some (.ofKnown t syms) := by
  rw [named, if_neg (by rw [Segment.any_isGeneric_plain]; decide), TypeExpr.dotted_ofPath, hknown]

/-- A name in full that finds a type resolves to it with its arguments resolved. -/
theorem resolveWith_ofPath {path : String} {args : List TypeArg} {t : KnownType} {sym : Symbol}
    (hknown : m.known? s none path args.length = some t) :
    resolveWith aliased? m s (.ofPath path args) = some sym ↔
      ∃ syms, resolveArgs aliased? m s args = some syms ∧ sym = .ofKnown t syms := by
  rw [resolveWith_ofPath_eq, Option.bind_eq_some_iff]
  constructor
  · rintro ⟨syms, hsyms, h⟩
    rw [← length_resolveArgs hsyms] at hknown
    rw [named_ofPath args hknown] at h
    cases h
    exact ⟨syms, hsyms, rfl⟩
  · rintro ⟨syms, hsyms, rfl⟩
    rw [← length_resolveArgs hsyms] at hknown
    exact ⟨syms, hsyms, named_ofPath args hknown⟩

theorem displayElement_eq (e : TupleElement) :
    displayElement aliased? m s e = (resolveWith aliased? m s e.type).map e.shown := by
  obtain ⟨t, n⟩ := e
  rw [displayElement]
  rfl

theorem displayElements_map : ∀ {es : List (TupleElement × Symbol)},
    (∀ e ∈ es, resolveWith aliased? m s e.1.type = some e.2) →
      displayElements aliased? m s (es.map (·.1)) = some (es.map fun e => e.1.shown e.2)
  | [], _ => by rw [List.map_nil, displayElements, List.map_nil]
  | e :: es, h => by
    rw [List.forall_mem_cons] at h
    rw [List.map_cons, displayElements, displayElement_eq, h.1, displayElements_map h.2]
    rfl

end Model

namespace Canonical

variable {m : Model} {t : TypeExpr} {sym : Symbol}

/-- A canonical type resolves to its symbol wherever all its names reach their types. -/
theorem resolve {aliased? : String → Option Symbol} {s : Scope} (h : Canonical m t sym)
    (hnames : t.AllNames (m.Reaches s)) : Model.resolveWith aliased? m s t = some sym := by
  induction h with
  | keyword hword => rwa [Model.resolveWith]
  | known _ hknown _ _ ih =>
    obtain ⟨hreach, hargs⟩ := TypeExpr.allNames_ofPath.1 hnames
    rw [← List.length_map fun a : TypeExpr × Symbol => TypeArg.given a.1] at hreach hknown
    exact (Model.resolveWith_ofPath (hreach.trans hknown)).2
      ⟨_, Model.resolveArgs_given.2 fun a ha => ih a ha (hargs a ha), rfl⟩
  | nullable _ _ ih =>
    rw [TypeExpr.AllNames] at hnames
    rw [Model.resolveWith, ih hnames]
    rfl
  | array commas _ ih =>
    rw [TypeExpr.AllNames] at hnames
    rw [Model.resolveWith, ih hnames]
    rfl
  | @tuple first second rest _ _ ih =>
    have hall : ∀ e ∈ first :: second :: rest,
        Model.resolveWith aliased? m s e.1.type = some e.2 := fun e he =>
      ih e he (TypeExpr.allNames_tuple.1 hnames e he)
    rw [List.forall_mem_cons, List.forall_mem_cons] at hall
    obtain ⟨hfirst, hsecond, hrest⟩ := hall
    rw [Model.resolveWith, Model.displayElement_eq, Model.displayElement_eq, hfirst, hsecond,
      Model.displayElements_map hrest]
    rfl

theorem reaches_global (h : Canonical m t sym) : t.AllNames (m.Reaches .global) := by
  induction h with
  | keyword _ =>
    rw [TypeExpr.AllNames]
    trivial
  | known _ hknown _ _ ih => exact TypeExpr.allNames_ofPath.2 ⟨Model.reaches_global hknown, ih⟩
  | nullable _ _ ih => rwa [TypeExpr.AllNames]
  | array _ _ ih => rwa [TypeExpr.AllNames]
  | tuple _ _ ih => exact TypeExpr.allNames_tuple.2 ih

/-- A display belongs to one canonical type and one symbol. -/
theorem unique {t' : TypeExpr} {sym' : Symbol} (h : Canonical m t sym) (h' : Canonical m t' sym')
    (hdisplay : sym.display = sym'.display) : t = t' ∧ sym = sym' := by
  have heq : t = t' := TypeExpr.print_injective h.wellFormed h'.wellFormed
    (by rw [h.print_eq, hdisplay, h'.print_eq])
  subst heq
  have hsym : Model.resolveWith (fun _ => none) m .global t = some sym := h.resolve h.reaches_global
  rw [h'.resolve h'.reaches_global, Option.some.injEq] at hsym
  exact ⟨rfl, hsym.symm⟩

/-- A display is read as the canonical type. -/
theorem read_display (h : Canonical m t sym) : TypeExpr.read sym.display = .ok t := by
  rw [← h.print_eq]
  exact TypeExpr.read_print h.wellFormed

end Canonical

end TaskWrappers
