import TaskWrappers.Proofs.TypeExpr.Exact
import TaskWrappers.Proofs.TypeExpr.Path

/-!
# Full names in writing

A type is written without regard to any scope as `global::` and its full name, the texts of its
type arguments behind it (`TypeExpr.globalText`). If every part of the name is a name to the
scanner, the text reads as just that (`TypeExpr.read_globalText`). A part that is one word, but has
a character that the scanner takes for none of a name, makes the whole unreadable
(`TypeExpr.read_globalText_error`).
-/

namespace TaskWrappers

open Text TypeToken

namespace Text

/-- No white space, no mark of the type syntax and no `@`: part of a name or of nothing. -/
def InWord (c : Char) : Prop :=
  isSpace c = false ∧ TypeToken.ofChar? c = none ∧ c ≠ ':' ∧ c ≠ '@'

/-- One word, whether or not all of its characters are those of a name. -/
def IsWord (word : String) : Prop := word ≠ "" ∧ ∀ c ∈ word.toList, InWord c

end Text

namespace TypeToken

variable {cs : List Char}

theorem scan_dot (cs : List Char) : scan ('.' :: cs) = (scan cs).map (dot :: ·) := by
  rw [scan.eq_def]
  simp only [show isSpace '.' = false by decide, show ofChar? '.' = some dot by rfl,
    Bool.false_eq_true, if_false]

theorem scan_global (cs : List Char) : scan ("global".toList ++ ':' :: ':' :: cs)
    = ((scan cs).map (colons :: ·)).map (name "global" :: ·) := by
  rw [scan_name_append (by decide) (breaks_cons (by decide)), scan.eq_def (':' :: _)]
  simp only [show isSpace ':' = false by decide, show ofChar? ':' = none by rfl,
    Bool.false_eq_true, if_false, if_true]

theorem scan_badChar {c : Char} (hc : InWord c) (hstart : isNameStart c = false) :
    scan (c :: cs) = .error (.badChar c) := by
  obtain ⟨hspace, hmark, hcolon, hat⟩ := hc
  rw [scan.eq_def]
  simp only [hspace, hmark, hcolon, hat, hstart, Bool.false_eq_true, if_false]

/-- A name's characters are followed by one that stops the scanner. -/
theorem scan_name_badChar {c d : Char} {good : List Char} (hstart : isNameStart c = true)
    (hgood : ∀ g ∈ good, isNameRest g = true) (hd : InWord d) (hrest : isNameRest d = false) :
    ∃ e, scan (c :: (good ++ d :: cs)) = .error e := by
  refine ⟨.badChar d, ?_⟩
  rw [scan_start hstart, (takeWhile_append_of_isNameRest (breaks_cons hrest) hgood).2,
    scan_badChar hd (isNameStart_eq_false hrest)]
  rfl

/-- A word that is no name stops the scanner. -/
theorem scan_word_error {word : String} (hword : IsWord word) (hname : isName word = false)
    (cs : List Char) : ∃ e, scan (word.toList ++ cs) = .error e := by
  obtain ⟨hne, hin⟩ := hword
  obtain ⟨c, rest, hchars⟩ := List.exists_cons_of_ne_nil fun h => hne (String.toList_eq_nil_iff.1 h)
  rw [hchars] at hin ⊢
  by_cases hstart : isNameStart c = true
  · rcases hbad : rest.find? (!isNameRest ·) with _ | d
    · have hgood : isName word = true := by
        refine isName_iff.2 ⟨c, rest, hchars, hstart, fun d hd => ?_⟩
        simpa using List.find?_eq_none.1 hbad d hd
      rw [hgood] at hname
      cases hname
    · obtain ⟨hd, good, tail, rfl, hgood⟩ := List.find?_eq_some_iff_append.1 hbad
      rw [List.cons_append, List.append_assoc, List.cons_append]
      exact scan_name_badChar hstart (fun g hg => by simpa using hgood g hg)
        (hin d (by simp)) (by simpa using hd)
  · exact ⟨_, scan_badChar (hin c List.mem_cons_self) (by simpa using hstart)⟩

theorem toList_dotted_cons (word : String) {rest : List String} (hne : rest ≠ []) :
    (Scope.dotted (word :: rest)).toList = word.toList ++ '.' :: (Scope.dotted rest).toList := by
  rw [Scope.dotted, String.intercalate_cons_of_ne_nil hne, String.toList_append,
    String.toList_append, List.append_assoc]
  rfl

/-- So does a path with such a word in it. -/
theorem scan_path_error {parts : List String} (hwords : ∀ word ∈ parts, IsWord word)
    (hbad : ∃ word ∈ parts, isName word = false) (cs : List Char) :
    ∃ e, scan ((Scope.dotted parts).toList ++ cs) = .error e := by
  induction parts with
  | nil => simp at hbad
  | cons word rest ih =>
    by_cases hname : isName word = true
    · have hrest : ∃ word ∈ rest, isName word = false := by simpa [hname] using hbad
      have hne : rest ≠ [] := by
        rintro rfl
        simp at hrest
      obtain ⟨e, he⟩ := ih (fun w hw => hwords w (List.mem_cons_of_mem _ hw)) hrest
      refine ⟨e, ?_⟩
      rw [toList_dotted_cons word hne, List.append_assoc, List.cons_append,
        scan_name_append hname (breaks_cons (by decide)), scan_dot, he]
      rfl
    · obtain ⟨tail, htail⟩ :
          ∃ tail, (Scope.dotted (word :: rest)).toList = word.toList ++ tail := by
        by_cases hne : rest = []
        · exact ⟨[], by rw [hne, Scope.dotted, String.intercalate_singleton, List.append_nil]⟩
        · exact ⟨_, toList_dotted_cons word hne⟩
      rw [htail, List.append_assoc]
      exact scan_word_error (hwords word List.mem_cons_self) (by simpa using hname) _

end TypeToken

namespace TypeExpr

/-- The texts of type arguments in angle brackets, or nothing. -/
def argumentText : List String → String
  | [] => ""
  | texts => "<" ++ ",".intercalate texts ++ ">"

/-- A full name in any scope, with the texts of its type arguments. -/
def globalText (name : String) (texts : List String) : String :=
  "global::" ++ name ++ argumentText texts

/-- The type that such a text is for. -/
def ofGlobal (name : String) (types : List TypeExpr) : TypeExpr :=
  .named (some globalQualifier) ((dotParts name).dropLast.map .plain)
    (.ofArgs ((dotParts name).getLast (dotParts_ne_nil name)) (types.map .given))

theorem toList_globalText (name : String) (texts : List String) :
    (globalText name texts).toList
      = "global".toList ++ ':' :: ':' :: (name.toList ++ (argumentText texts).toList) := by
  rw [globalText, String.toList_append, String.toList_append, List.append_assoc]
  rfl

theorem toList_argumentText (text : String) (texts : List String) :
    (argumentText (text :: texts)).toList
      = '<' :: ((",".intercalate (text :: texts)).toList ++ ['>']) := by
  rw [argumentText, String.toList_append, String.toList_append, List.append_assoc]
  · rfl
  · intro h
    cases h

section Arguments

variable {text : String} {type : TypeExpr} {texts : List String} {types : List TypeExpr}
  (htexts : List.Forall₂ (fun text type => read text = .ok type) texts types)
include htexts

/-- Type arguments between commas, and the closing bracket, have the tokens of each. -/
theorem scan_arguments (h : read text = .ok type) :
    scan ((",".intercalate (text :: texts)).toList ++ ['>'])
      = .ok (type.tokens ++ TypeArg.restTokens (types.map .given) ++ [greater]) := by
  have hclose : scan ['>'] = .ok [greater] := scan_mark (by decide) rfl (by rw [scan])
  induction htexts generalizing text type with
  | nil =>
    rw [String.intercalate_singleton, scan_append (breaks_cons (by decide)) (by decide),
      read_exact h, hclose, List.map_nil, TypeArg.restTokens, List.append_nil]
    rfl
  | @cons next nextType texts types hnext hrest ih =>
    have hchars : (",".intercalate (text :: next :: texts)).toList ++ ['>']
        = text.toList ++ ',' :: ((",".intercalate (next :: texts)).toList ++ ['>']) := by
      rw [String.intercalate_cons_of_ne_nil (by simp), String.toList_append, String.toList_append,
        List.append_assoc, List.append_assoc]
      rfl
    rw [hchars, scan_append (breaks_cons (by decide)) (by simp), read_exact h,
      scan_mark (by decide) rfl (ih hnext), List.map_cons, TypeArg.restTokens, TypeArg.tokens]
    simp [Except.bind, Except.map]

theorem derives_arguments : Derives (TypeArg.restTokens (types.map .given))
    (.args (types.map .given)) := by
  induction htexts with
  | nil =>
    rw [List.map_nil, TypeArg.restTokens]
    exact .noArgs
  | cons h _ ih =>
    obtain ⟨ts, -, ht⟩ := read_iff.1 h
    rw [List.map_cons, TypeArg.restTokens]
    refine .moreArgs (.given ?_) ih
    rw [TypeArg.tokens]
    rwa [ht.tokens_eq] at ht

/-- The tokens of a name with its type arguments are those of its segment. -/
theorem scan_segment {name : String} (hname : isName name = true) :
    scan (name.toList ++ (argumentText texts).toList)
        = .ok (Segment.ofArgs name (types.map .given)).tokens ∧
      Derives (Segment.ofArgs name (types.map .given)).tokens
        (.segment (.ofArgs name (types.map .given))) := by
  cases htexts with
  | nil =>
    rw [List.map_nil, Segment.ofArgs, Segment.tokens]
    exact ⟨scan_name hname breaks_nil (by rw [argumentText, String.toList_empty, scan]), .plain _⟩
  | @cons text type texts types h hrest =>
    obtain ⟨ts, -, ht⟩ := read_iff.1 h
    rw [ht.tokens_eq] at ht
    have hopen := scan_mark (c := '<') (by decide) rfl (scan_arguments hrest h)
    rw [toList_argumentText, List.map_cons, Segment.ofArgs, Segment.tokens, TypeArg.tokens]
    exact ⟨scan_name hname (breaks_cons (by decide)) hopen,
      .generic _ (.given ht) (derives_arguments hrest)⟩

/-- A full name made of names is read as itself with its type arguments. -/
theorem read_globalText {name : String} (hnames : ∀ part ∈ dotParts name, isName part = true) :
    read (globalText name texts) = .ok (ofGlobal name types) := by
  have hne := dotParts_ne_nil name
  have houter : Segment.AllWellFormed ((dotParts name).dropLast.map .plain) :=
    allWellFormed_plain fun part hpart => hnames part (List.dropLast_subset _ hpart)
  obtain ⟨hlast, hderives⟩ := scan_segment htexts (hnames _ (List.getLast_mem hne))
  have hpath := Segment.scan_printDotted _ houter hlast
  have hchars : (Segment.printDotted ((dotParts name).dropLast.map .plain)).toList
      ++ (((dotParts name).getLast hne).toList ++ (argumentText texts).toList)
        = name.toList ++ (argumentText texts).toList := by
    rw [← List.append_assoc, ← String.toList_append, Segment.printDotted_plain,
      List.dropLast_concat_getLast, dotted_dotParts]
  rw [hchars] at hpath
  refine read_iff.2 ⟨_, ?_, .primary (.qualified (by decide)
    (Segment.derives_dottedTokens _ houter hderives))⟩
  rw [toList_globalText, scan_global, hpath]
  rfl

end Arguments

/-- Nothing is read of a full name one word of which is no name. -/
theorem read_globalText_error {name : String} (hwords : ∀ part ∈ dotParts name, IsWord part)
    (hbad : ∃ part ∈ dotParts name, isName part = false) (texts : List String) :
    ∃ e, read (globalText name texts) = .error e := by
  obtain ⟨e, he⟩ := scan_path_error hwords hbad (argumentText texts).toList
  rw [dotted_dotParts] at he
  refine ⟨e, ?_⟩
  rw [read, toList_globalText, scan_global, he]
  rfl

end TypeExpr

end TaskWrappers
