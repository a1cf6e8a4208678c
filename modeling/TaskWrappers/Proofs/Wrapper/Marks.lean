import TaskWrappers.Proofs.Resolution.Alias
import TaskWrappers.Proofs.Resolution.Induction
import TaskWrappers.Proofs.Wrapper.Short

/-!
# One mark at most

A symbol is nullable exactly if its display ends in `?`, and never ends in two (`Symbol.Marked`),
whatever marks, `System.Nullable`s, aliases, arrays and tuples stand in the type it comes from.
Losing `System.` in front changes nothing of that, so the input type of a task with room for a
default value ends in one `?`: its own, or one that is added (`Payload.default_marked`).
-/

namespace TaskWrappers

open Text

namespace Text

/-- Whether a text ends in another. -/
def EndsIn (text tail : String) : Prop := tail.toList <:+ text.toList

instance (text tail : String) : Decidable (EndsIn text tail) :=
  inferInstanceAs (Decidable (_ <:+ _))

/-- What is in front makes no difference if no character of the tail is in it. -/
theorem endsIn_append {lead tail : String} (h : ∀ c ∈ tail.toList, c ∉ lead.toList)
    (text : String) : EndsIn (lead ++ text) tail ↔ EndsIn text tail := by
  rw [EndsIn, EndsIn, String.toList_append]
  constructor
  · intro htail
    rcases List.suffix_or_suffix_of_suffix htail (List.suffix_append _ text.toList) with hle | hle
    · exact hle
    -- A tail longer than the text would reach into what is in front of it.
    · obtain ⟨more, hmore⟩ := hle
      rw [← hmore] at htail h
      have hlead := ((List.suffix_append_inj_of_length_eq rfl).1 htail).1
      have hnil : more = [] := by
        refine List.eq_nil_iff_forall_not_mem.2 fun c hc => ?_
        exact h c (List.mem_append_left _ hc) (hlead.subset hc)
      rw [← hmore, hnil]
      exact List.suffix_rfl
  · exact fun htail => htail.trans (List.suffix_append _ _)

theorem endsIn_mark_iff {text : String} : EndsIn text "?" ↔ text.toList.getLast? = some '?' :=
  List.singleton_suffix_iff_getLast?_eq_some

theorem endsIn_marked (text : String) : EndsIn (text ++ "?") "?" := by
  simp [endsIn_mark_iff]

theorem endsIn_marks_iff (text : String) : EndsIn (text ++ "?") "??" ↔ EndsIn text "?" := by
  have htwo : "??".toList = ['?'] ++ ['?'] := rfl
  rw [EndsIn, String.toList_append, htwo]
  exact (List.suffix_append_inj_of_length_eq rfl).trans (and_iff_left rfl)

theorem not_endsIn_of_not_mem {text : String} (h : '?' ∉ text.toList) : ¬ EndsIn text "?" := by
  rw [endsIn_mark_iff]
  exact fun hlast => h (List.mem_of_getLast? hlast)

theorem not_endsIn_closed {close : String} {c : Char} (hclose : close.toList = [c]) (hc : c ≠ '?')
    (text : String) : ¬ EndsIn (text ++ close) "?" := by
  simp [endsIn_mark_iff, String.toList_append, hclose, hc]

theorem EndsIn.mark {text : String} (h : EndsIn text "??") : EndsIn text "?" :=
  List.IsSuffix.trans (by decide) h

end Text

namespace Symbol

/-- Nullable exactly where the display ends in a mark, and in no two. -/
def Marked (sym : Symbol) : Prop :=
  (sym.isNullable = true ↔ EndsIn sym.display "?") ∧ ¬ EndsIn sym.display "??"

theorem marked_of_not_endsIn {sym : Symbol} (hunmarked : sym.isNullable = false)
    (hdisplay : ¬ EndsIn sym.display "?") : sym.Marked :=
  ⟨by simp [hunmarked, hdisplay], fun h => hdisplay h.mark⟩

theorem Marked.toNullable {sym : Symbol} (h : sym.Marked) : sym.toNullable.Marked := by
  by_cases hn : sym.isNullable = true
  · rwa [Symbol.toNullable, if_pos hn]
  · rw [toNullable_of_unmarked (by simpa using hn)]
    refine ⟨by simp [endsIn_marked], ?_⟩
    rw [endsIn_marks_iff, ← h.1]
    exact hn

theorem marked_ofKeywordType {k : KeywordType} (hk : k ∈ Catalog.keywordTypes) :
    (ofKeywordType k).Marked := by
  have hall : ∀ k ∈ Catalog.keywordTypes, ¬ EndsIn k.keyword "?" := by decide +kernel
  exact marked_of_not_endsIn rfl (hall k hk)

theorem marked_ofKeyword? {word : String} {sym : Symbol} (h : ofKeyword? word = some sym) :
    sym.Marked := by
  unfold ofKeyword? at h
  split at h
  · obtain rfl := Option.some.inj h
    exact marked_of_not_endsIn rfl (by decide)
  · obtain ⟨k, hk, rfl⟩ := Option.map_eq_some_iff.1 h
    exact marked_ofKeywordType (List.mem_of_find?_eq_some hk)

theorem marked_ofKnown {t : KnownType} (ht : '?' ∉ t.fullName.toList) {args : List Symbol}
    (hargs : ∀ sym ∈ args, sym.Marked) : (ofKnown t args).Marked := by
  by_cases hc : Collapses t args
  · rcases args with _ | ⟨arg, args⟩
    · obtain ⟨k, hk, hsym⟩ := exists_keyword_of_collapses hc
      rw [hsym]
      exact marked_ofKeywordType (List.mem_of_find?_eq_some hk)
    · rw [ofKnown_of_collapses hc]
      exact (hargs arg List.mem_cons_self).toNullable
  · rw [ofKnown_of_not_collapses hc]
    refine marked_of_not_endsIn rfl ?_
    rcases args with _ | ⟨arg, args⟩
    · simpa [argumentDisplay] using not_endsIn_of_not_mem ht
    · rw [argumentDisplay, ← String.append_assoc]
      · exact not_endsIn_closed rfl (by decide) _
      · simp

theorem marked_arrayOf (element : Symbol) (commas : Nat) : (element.arrayOf commas).Marked :=
  marked_of_not_endsIn rfl (not_endsIn_closed rfl (by decide) _)

theorem marked_tupleOf (shown : List String) : (tupleOf shown).Marked :=
  marked_of_not_endsIn rfl (not_endsIn_closed rfl (by decide) _)

theorem prefix_iff {sym : Symbol} : (systemSpace ++ ".").toList <+: sym.display.toList ↔
    ∃ rest, sym.display = systemSpace ++ "." ++ rest := by
  constructor
  · rintro ⟨rest, hrest⟩
    refine ⟨.ofList rest, ?_⟩
    rw [← String.toList_inj, ← hrest]
    simp [String.toList_append]
  · rintro ⟨rest, hrest⟩
    rw [hrest]
    simp [String.toList_append]

theorem shortDisplay_of_forall_ne {sym : Symbol}
    (h : ∀ rest, sym.display ≠ systemSpace ++ "." ++ rest) : sym.shortDisplay = sym.display := by
  have hlead : ¬ (systemSpace ++ ".").toList.isPrefixOf sym.display.toList = true := by
    rw [List.isPrefixOf_iff_prefix, prefix_iff, not_exists]
    exact h
  rw [shortDisplay, dropLead?, if_neg hlead, Option.elim_none, ite_self]

/-- What a display loses in front is the namespace, if anything. -/
theorem display_eq_of_shortDisplay_ne {sym : Symbol} (h : sym.shortDisplay ≠ sym.display) :
    sym.space = some systemSpace ∧ sym.display = systemSpace ++ "." ++ sym.shortDisplay := by
  have hspace : sym.space = some systemSpace := by
    by_contra hspace
    exact h (shortDisplay_of_space hspace)
  obtain ⟨rest, hrest⟩ : ∃ rest, sym.display = systemSpace ++ "." ++ rest := by
    by_contra hnone
    exact h (shortDisplay_of_forall_ne (not_exists.1 hnone))
  exact ⟨hspace, by rw [shortDisplay_of_system hspace hrest, ← hrest]⟩

/-- Losing the namespace changes nothing at the end. -/
theorem endsIn_shortDisplay {sym : Symbol} {tail : String} (h : ∀ c ∈ tail.toList, c = '?') :
    EndsIn sym.shortDisplay tail ↔ EndsIn sym.display tail := by
  by_cases hshort : sym.shortDisplay = sym.display
  · rw [hshort]
  · rw [(display_eq_of_shortDisplay_ne hshort).2]
    refine (endsIn_append (fun c hc => ?_) _).symm
    rw [h c hc]
    decide

theorem shortDisplay_toNullable {sym : Symbol} (h : sym.isNullable = false) :
    sym.toNullable.shortDisplay = sym.shortDisplay ++ "?" := by
  rw [toNullable_of_unmarked h]
  by_cases hspace : sym.space = some systemSpace
  · by_cases hlead : ∃ rest, sym.display = systemSpace ++ "." ++ rest
    · obtain ⟨rest, hrest⟩ := hlead
      rw [shortDisplay_of_system hspace hrest]
      exact shortDisplay_of_system hspace (by rw [hrest, String.append_assoc])
    -- The mark does not complete the namespace and its dot.
    · have hmarked : ∀ rest, sym.display ++ "?" ≠ systemSpace ++ "." ++ rest := by
        intro rest hrest
        have hprefix : (systemSpace ++ ".").toList <+: sym.display.toList ++ ['?'] :=
          ⟨rest.toList, by rw [← String.toList_append, ← hrest, String.toList_append]; rfl⟩
        rcases List.prefix_concat_iff.1 hprefix with heq | hprefix
        · have hmark : '?' ∈ (systemSpace ++ ".").toList := by simp [heq]
          exact absurd hmark (by decide)
        · exact hlead (prefix_iff.1 hprefix)
      rw [shortDisplay_of_forall_ne (not_exists.1 hlead)]
      exact shortDisplay_of_forall_ne hmarked
  · rw [shortDisplay_of_space hspace]
    exact shortDisplay_of_space hspace

/-- A display in full stays so with a mark. -/
theorem shortDisplay_toNullable_eq {sym : Symbol} (h : sym.shortDisplay = sym.display) :
    sym.toNullable.shortDisplay = sym.toNullable.display := by
  by_cases hn : sym.isNullable = true
  · rwa [toNullable, if_pos hn]
  · have hunmarked : sym.isNullable = false := by simpa using hn
    rw [shortDisplay_toNullable hunmarked, h, toNullable_of_unmarked hunmarked]

end Symbol

namespace Model

/-- Every symbol that a type resolves to is marked as its display is. -/
theorem keeps_marked {m : Model} (hnames : ∀ t ∈ m.types, '?' ∉ t.fullName.toList) :
    m.Keeps fun _ _ sym => sym.Marked where
  keyword := Symbol.marked_ofKeyword?
  known hknown hargs := by
    refine Symbol.marked_ofKnown (hnames _ (type?_some (type?_of_known? hknown)).1) ?_
    intro sym hsym
    obtain ⟨_, -, _, -, -, hmarked⟩ := exists_of_mem_right hargs hsym
    exact hmarked
  aliased _ _ _ h := h
  nullable := Symbol.Marked.toNullable
  array commas _ := Symbol.marked_arrayOf _ commas
  tuple _ _ _ := Symbol.marked_tupleOf

end Model

section Build

variable {files : List SourceFile} (implicitSpaces : List String)
  (hnames : ∀ f ∈ files, ∀ d ∈ f.types, '?' ∉ d.fullName.toList)
include hnames

theorem Model.keeps_marked_build :
    (build files implicitSpaces).Keeps fun _ _ sym => sym.Marked := by
  refine keeps_marked fun t ht => ?_
  rcases mem_types_build ht with ⟨f, hf, d, hd, rfl⟩ | ⟨d, hd, rfl⟩
  · exact hnames f hf d hd
  · exact TypeExpr.not_mem_of_isPath (isPath_framework d hd) (by decide) (by decide)

end Build

namespace Symbol

/-- The text with room for a default value is the other with one mark. -/
theorem payloadText_default {found : Option Symbol} (h : ∀ sym, found = some sym → sym.Marked) :
    EndsIn (payloadText found true) "?" ∧ ¬ EndsIn (payloadText found true) "??" ∧
      payloadText found true
        = if EndsIn (payloadText found false) "?" then payloadText found false
          else payloadText found false ++ "?" := by
  rcases found with _ | sym
  · decide
  · have hmarked := (h sym rfl).toNullable
    have hends (s : Symbol) : EndsIn s.shortDisplay "?" ↔ EndsIn s.display "?" :=
      endsIn_shortDisplay (by simp)
    have htwo : EndsIn sym.toNullable.shortDisplay "??" ↔ EndsIn sym.toNullable.display "??" :=
      endsIn_shortDisplay (by simp)
    simp only [payloadText, hends, htwo]
    refine ⟨hmarked.1.1 (isNullable_toNullable sym), hmarked.2, ?_⟩
    have hmark := (h sym rfl).1
    by_cases hn : sym.isNullable = true
    · rw [if_pos (hmark.1 hn), toNullable, if_pos hn]
    · rw [if_neg (hn ∘ hmark.2), shortDisplay_toNullable (by simpa using hn)]

end Symbol

/-- Where no declared name has a `?`, what a type resolves to is nullable exactly if its display
ends in the mark, and the input type with room for a default value ends in exactly one: it is the
input type if that ends in one, and else the input type with one behind it. There is a payload to
speak of where no alias that is followed leads back to itself (`Model.resolveAlias`). -/
theorem Payload.default_marked {files : List SourceFile} (implicitSpaces : List String)
    (hnames : ∀ f ∈ files, ∀ d ∈ f.types, '?' ∉ d.fullName.toList) (s : Scope) :
    (∀ type sym, (Model.build files implicitSpaces).resolve s type = some sym →
      ((sym.isNullable = true ↔ EndsIn sym.display "?") ∧ ¬ EndsIn sym.display "??")) ∧
    ∀ args : List (Option TypeExpr),
      EndsIn (ofArguments (Model.build files implicitSpaces) s args).inputDefault "?" ∧
      ¬ EndsIn (ofArguments (Model.build files implicitSpaces) s args).inputDefault "??" ∧
      (ofArguments (Model.build files implicitSpaces) s args).inputDefault
        = if EndsIn (ofArguments (Model.build files implicitSpaces) s args).input "?"
          then (ofArguments (Model.build files implicitSpaces) s args).input
          else (ofArguments (Model.build files implicitSpaces) s args).input ++ "?" := by
  have hkeeps := Model.keeps_marked_build implicitSpaces hnames
  refine ⟨fun type sym h => hkeeps.of_resolve h, fun args => ?_⟩
  refine Symbol.payloadText_default fun sym hsym => ?_
  obtain ⟨type, -, htype⟩ := Option.bind_eq_some_iff.1 hsym
  exact hkeeps.of_resolve htype

/-- A structure, and an alias for what is already its nullable form. -/
def orderFile : SourceFile where
  path := "Order.cs"
  usings := [⟨.aliased "Maybe", "System.Nullable<App.Order>", true⟩]
  types := [⟨"Order", .struct, some "App", [], 0, [], [], [], [], [], default⟩]
  damage := none

theorem Payload.default_marked_maybe :
    (∀ f ∈ [orderFile], ∀ d ∈ f.types, '?' ∉ d.fullName.toList) ∧
      (ofArguments (.build [orderFile] []) .global
        [some (.nullable (.named none [] (.plain "Maybe")))]).input = "App.Order?" ∧
      (ofArguments (.build [orderFile] []) .global
        [some (.nullable (.named none [] (.plain "Maybe")))]).inputDefault = "App.Order?" := by
  have hnames : ∀ f ∈ [orderFile], ∀ d ∈ f.types, '?' ∉ d.fullName.toList := by decide
  have hinput : (ofArguments (.build [orderFile] []) .global
      [some (.nullable (.named none [] (.plain "Maybe")))]).input = "App.Order?" := by
    have hsym : (Model.build [orderFile] []).resolve .global
        (.nullable (.named none [] (.plain "Maybe")))
          = some ⟨"App.Order?", some "App", false, true⟩ := by
      have htarget : (Model.build [orderFile] []).aliasTarget? .global "Maybe"
          = some "System.Nullable<App.Order>" := by
        decide
      have hfound : ((Model.build [orderFile] []).candidates .global "Maybe").findSome?
          ((Model.build [orderFile] []).type? · 0) = none := by
        decide +kernel
      have htext : (Model.build [orderFile] []).resolveText .global "System.Nullable<App.Order>"
          = some ⟨"App.Order?", some "App", false, true⟩ := by
        decide +kernel
      rw [Model.resolve, Model.resolveWith, ← Model.resolve, Model.resolve_plain, hfound,
        Model.resolveAlias_target htarget, htext]
      decide
    simp only [ofArguments, List.getElem?_cons_zero, Option.bind_some, id, hsym]
    decide +kernel
  refine ⟨hnames, hinput, ?_⟩
  obtain ⟨-, -, hdefault⟩ := (default_marked [] hnames .global).2
    [some (.nullable (.named none [] (.plain "Maybe")))]
  rw [hdefault, hinput, if_pos (by decide)]

end TaskWrappers
