import TaskWrappers.Declaration.Text
import TaskWrappers.Proofs.Resolution.Alias
import TaskWrappers.Proofs.Text.Split
import TaskWrappers.Proofs.TypeExpr.Apart
import TaskWrappers.Proofs.TypeExpr.Global

/-!
# Types under other names

A directive that gives another name to a type is recorded with all white space taken out of the type
(`Using.exists_ofText?`, `Using.AliasHead.ofText?_line`). The name means the type as it is written
if what was recorded is still read as that type, which is so exactly if no two names in the type
have only white space between them. The types that are lost are tuples: in `(int Id, string Name)`
both elements run together with their names.
-/

namespace TaskWrappers

open Text

/-- A character that is part of no token is in no text that consists of tokens. -/
theorem TypeToken.not_mem_of_scan {cs : List Char} {ts : List TypeToken} {c : Char}
    (h : scan cs = .ok ts) (hc : InWord c) (hrest : isNameRest c = false) : c ∉ cs := by
  intro hmem
  obtain ⟨before, after, rfl⟩ := List.append_of_mem hmem
  rw [scan_append (breaks_cons hrest) (by simpa using hc.2.2.1),
    scan_badChar hc (isNameStart_eq_false hrest)] at h
  cases hbefore : scan before <;> rw [hbefore] at h <;> cases h

namespace Using

/-- The words that may stand in front of what a directive names. -/
def leadWords : List String := ["global", "using", "unsafe", "static"]

theorem isSpace_equals : isSpace '=' = false := by decide

section Lead

variable {cs a : List Char}

theorem leadingWords_of_cut {word tail : List Char} (hcut : cut? isSpace cs = some (word, tail))
    (n : ℕ) : leadingWords (n + 1) cs
      = if .ofList word ∈ leadWords then
          (.ofList word :: (leadingWords n (trimStart tail)).1, (leadingWords n (trimStart tail)).2)
        else ([], cs) := by
  rw [leadingWords, hcut]
  rfl

/-- Nothing is taken away from a text whose first word has an `=` in it. -/
theorem leadingWords_of_not_isSpace (ha : ∀ c ∈ a, isSpace c = false) (b : List Char) (n : ℕ) :
    leadingWords n (a ++ '=' :: b) = ([], a ++ '=' :: b) := by
  have hequals : cut? isSpace (a ++ '=' :: b)
      = (cut? isSpace b).map fun parts => (a ++ '=' :: parts.1, parts.2) := by
    rw [cut?_append, cut?_eq_none_iff.2 ha, cut?, if_neg (by decide)]
    cases cut? isSpace b <;> rfl
  have hwords : ∀ w ∈ leadWords, '=' ∉ w.toList := by decide
  cases n with
  | zero => rfl
  | succ n =>
    cases hb : cut? isSpace b with
    | none => rw [leadingWords, hequals, hb, Option.map_none]
    | some parts =>
      rw [hb, Option.map_some] at hequals
      rw [leadingWords_of_cut hequals, if_neg]
      intro hword
      exact absurd (by simp) (hwords _ hword)

/-- The words in front of the first `=` may be taken away, but not the `=` itself. -/
theorem exists_leadingWords (n : ℕ) (ha : '=' ∉ a) (b : List Char) :
    ∃ words rest, '=' ∉ rest ∧ leadingWords n (a ++ '=' :: b) = (words, rest ++ '=' :: b) := by
  induction n generalizing a with
  | zero => exact ⟨[], a, ha, rfl⟩
  | succ n ih =>
    cases hcut : cut? isSpace a with
    | none => exact ⟨[], a, ha, leadingWords_of_not_isSpace (cut?_eq_none_iff.1 hcut) b (n + 1)⟩
    | some parts =>
      obtain ⟨word, tail⟩ := parts
      have hwhole : cut? isSpace (a ++ '=' :: b) = some (word, tail ++ '=' :: b) := by
        rw [cut?_append, hcut]
        rfl
      obtain ⟨c, -, rfl⟩ := exists_of_cut? hcut
      have htail : '=' ∉ trimStart tail := fun hmem => ha (List.mem_append_right word
        (List.mem_cons_of_mem c ((List.dropWhile_sublist _).subset hmem)))
      obtain ⟨words, rest, hrest, heq⟩ := ih htail
      rw [leadingWords_of_cut hwhole, trimStart_append_cons isSpace_equals, heq]
      split
      · exact ⟨_, rest, hrest, rfl⟩
      · exact ⟨[], _, ha, rfl⟩

section Gap

variable {gap : List Char} (hgap : ∀ c ∈ gap, isSpace c = true)
include hgap

theorem leadingWords_word {word : String} (hword : word ∈ leadWords) (hne : gap ≠ [])
    (hcs : ∀ c, cs.head? = some c → isSpace c = false) (n : ℕ) :
    leadingWords (n + 1) (word.toList ++ (gap ++ cs))
      = (word :: (leadingWords n cs).1, (leadingWords n cs).2) := by
  have hspace : ∀ w ∈ leadWords, w.toList.any isSpace = false := by decide
  obtain ⟨c, gap, rfl⟩ := List.exists_cons_of_ne_nil hne
  rw [List.forall_mem_cons] at hgap
  rw [List.cons_append, leadingWords_of_cut
    (cut?_eq_some (isSpace_eq_false_of_any (hspace word hword)) hgap.1 _), String.ofList_toList,
    if_pos hword, trimStart_append hgap.2, trimStart_eq_self hcs]

/-- The name in front of the `=` stays. -/
theorem leadingWords_name {name : String} (hname : ∀ c ∈ name.toList, isSpace c = false)
    (hword : name ∉ leadWords) (b : List Char) (n : ℕ) :
    leadingWords n (name.toList ++ (gap ++ '=' :: b)) = ([], name.toList ++ (gap ++ '=' :: b)) := by
  cases gap with
  | nil => exact leadingWords_of_not_isSpace hname b n
  | cons c gap =>
    cases n with
    | zero => rfl
    | succ n =>
      rw [List.cons_append, leadingWords_of_cut (cut?_eq_some hname (hgap c List.mem_cons_self) _),
        String.ofList_toList, if_neg hword]

end Gap
end Lead

/-- What is left of a directive's text when its ends are taken off. -/
theorem body_eq {before target : String} (htarget : ';' ∉ target.toList) :
    trimEnd ((trim (before ++ "=" ++ target ++ ";").toList).reverse.dropWhile (· == ';')).reverse
      = trimStart before.toList ++ '=' :: trimEnd target.toList := by
  have htext : (before ++ "=" ++ target ++ ";").toList
      = before.toList ++ '=' :: (target.toList ++ [';']) := by
    simp [String.toList_append]
  have hend : trimEnd (target.toList ++ [';']) = target.toList ++ [';'] :=
    trimEnd_append_cons (by decide) target.toList []
  have hsemicolon : ((target.toList ++ [';']).reverse.dropWhile (· == ';')).reverse
      = target.toList := by
    rw [List.reverse_append, List.reverse_singleton, List.singleton_append,
      List.dropWhile_cons_of_pos (by decide), dropWhile_of_forall, List.reverse_reverse]
    intro c hc
    refine beq_false_of_ne ?_
    rintro rfl
    exact htarget (List.mem_reverse.1 hc)
  rw [htext, trim, trimStart_append_cons isSpace_equals, trimEnd_append_cons isSpace_equals, hend,
    reverse_dropWhile_append_cons (by decide), hsemicolon, trimEnd_append_cons isSpace_equals]

theorem ofText?_eq {before target : String} (htarget : ';' ∉ target.toList) {words : List String}
    {rest : List Char} (hrest : '=' ∉ rest)
    (hlead : leadingWords (trimStart before.toList ++ '=' :: trimEnd target.toList).length
        (trimStart before.toList ++ '=' :: trimEnd target.toList)
      = (words, rest ++ '=' :: trimEnd target.toList)) :
    ofText? (before ++ "=" ++ target ++ ";")
      = some ⟨.aliased (.ofList (trim rest)), joined target, words.contains "global"⟩ := by
  have hne : (rest ++ '=' :: trimEnd target.toList).isEmpty = false := by simp
  simp only [ofText?, body_eq htarget, hlead, hne, cut?_append_cons hrest, withoutSpace_trimEnd]
  rfl

/-- Whatever stands in front of the first `=`, what stands behind it is recorded without its white
space. -/
theorem exists_ofText? {before target : String} (hbefore : '=' ∉ before.toList)
    (htarget : ';' ∉ target.toList) : ∃ name isGlobal,
      ofText? (before ++ "=" ++ target ++ ";") = some ⟨.aliased name, joined target, isGlobal⟩ := by
  have htrim : '=' ∉ trimStart before.toList := fun hmem =>
    hbefore ((List.dropWhile_sublist _).subset hmem)
  obtain ⟨words, rest, hrest, hlead⟩ := exists_leadingWords _ htrim (trimEnd target.toList)
  exact ⟨_, _, ofText?_eq htarget hrest hlead⟩

/-- What stands in front of the `=` where a directive gives a type another name. -/
structure AliasHead where
  isGlobal : Bool
  name : String
  afterGlobal : String
  afterUsing : String
  afterName : String
  afterGlobal_ne : afterGlobal ≠ ""
  afterGlobal_space : ∀ c ∈ afterGlobal.toList, isSpace c = true
  afterUsing_ne : afterUsing ≠ ""
  afterUsing_space : ∀ c ∈ afterUsing.toList, isSpace c = true
  afterName_space : ∀ c ∈ afterName.toList, isSpace c = true
  name_ne : name ≠ ""
  name_space : ∀ c ∈ name.toList, isSpace c = false
  name_equals : '=' ∉ name.toList
  name_word : name ∉ leadWords

namespace AliasHead

variable (l : AliasHead)

def lead : String := if l.isGlobal then "global" ++ l.afterGlobal else ""

def text : String := l.lead ++ "using" ++ l.afterUsing ++ l.name ++ l.afterName

def line (target : String) : String := l.text ++ "=" ++ target ++ ";"

/-- What is recorded of the line. -/
def directive (target : String) : Using := ⟨.aliased l.name, joined target, l.isGlobal⟩

theorem toList_text : l.text.toList = l.lead.toList
    ++ ("using".toList ++ (l.afterUsing.toList ++ (l.name.toList ++ l.afterName.toList))) := by
  simp only [text, String.toList_append, List.append_assoc]

theorem toList_name_ne : l.name.toList ≠ [] :=
  fun h => l.name_ne (String.toList_eq_nil_iff.1 h)

theorem leadingWords_using (b : List Char) (n : ℕ) :
    leadingWords (n + 1) ("using".toList ++ (l.afterUsing.toList
        ++ (l.name.toList ++ (l.afterName.toList ++ '=' :: b))))
      = (["using"], l.name.toList ++ (l.afterName.toList ++ '=' :: b)) := by
  have hne : l.afterUsing.toList ≠ [] := fun h => l.afterUsing_ne (String.toList_eq_nil_iff.1 h)
  rw [leadingWords_word l.afterUsing_space (by decide) hne
    (isSpace_of_head?_append l.toList_name_ne l.name_space),
    leadingWords_name l.afterName_space l.name_space l.name_word]

theorem leadingWords_text (b : List Char) (n : ℕ) :
    leadingWords (n + 2) (l.text.toList ++ '=' :: b)
      = (if l.isGlobal then ["global", "using"] else ["using"],
        l.name.toList ++ (l.afterName.toList ++ '=' :: b)) := by
  have husing := isSpace_eq_false_of_any (by decide : "using".toList.any isSpace = false)
  rw [toList_text, lead]
  simp only [List.append_assoc]
  split
  · have hne : l.afterGlobal.toList ≠ [] :=
      fun h => l.afterGlobal_ne (String.toList_eq_nil_iff.1 h)
    rw [String.toList_append, List.append_assoc, leadingWords_word l.afterGlobal_space (by decide)
      hne (isSpace_of_head?_append (by decide) husing), leadingWords_using]
  · exact leadingWords_using l b (n + 1)

theorem trimStart_text : trimStart l.text.toList = l.text.toList := by
  rw [toList_text, lead]
  split
  · rw [String.toList_append, List.append_assoc]
    exact trimStart_eq_self
      (isSpace_of_head?_append (by decide) (isSpace_eq_false_of_any (by decide)))
  · rw [String.toList_empty, List.nil_append]
    exact trimStart_eq_self
      (isSpace_of_head?_append (by decide) (isSpace_eq_false_of_any (by decide)))

/-- A line is recorded under its name, and its target without white space. -/
theorem ofText?_line {target : String} (htarget : ';' ∉ target.toList) :
    ofText? (l.line target) = some (l.directive target) := by
  have hequals : '=' ∉ l.name.toList ++ l.afterName.toList := by
    rw [List.mem_append, not_or]
    refine ⟨l.name_equals, fun hmem => ?_⟩
    have hspace := l.afterName_space _ hmem
    rw [isSpace_equals] at hspace
    cases hspace
  have hlength : 2 ≤ (l.text.toList ++ '=' :: trimEnd target.toList).length := by
    rw [toList_text]
    simp only [List.length_append, show "using".toList.length = 5 by decide]
    omega
  obtain ⟨n, hn⟩ := Nat.exists_eq_add_of_le' hlength
  have hlead := l.leadingWords_text (trimEnd target.toList) n
  rw [← hn, ← List.append_assoc] at hlead
  have hrecorded := @ofText?_eq l.text target htarget _ _ hequals
    (by rw [trimStart_text, hlead])
  rw [line, hrecorded, trim_word_append l.toList_name_ne l.name_space l.afterName_space, directive,
    String.ofList_toList]
  cases l.isGlobal <;> rfl

end AliasHead

/-- Whatever stands in front of it, the type behind the first `=` is recorded without its white
space. It is still read as the same type exactly if no two of its names have only white space
between them, and then the alias means what the type means in the global scope. -/
theorem alias_exact {target : String} {t : TypeExpr} (h : TypeExpr.read target = .ok t) :
    (∀ before : String, '=' ∉ before.toList → ∃ name isGlobal,
      ofText? (before ++ "=" ++ target ++ ";")
        = some ⟨.aliased name, joined target, isGlobal⟩) ∧
    (∀ l : AliasHead, ofText? (l.line target) = some (l.directive target)) ∧
    (TypeExpr.read (joined target) = .ok t ↔ spacedNames target.toList = false) ∧
    (t.pairsNames = false → TypeExpr.read (joined target) = .ok t) ∧
    ('@' ∉ target.toList → TypeExpr.read (joined target) = .ok t → t.pairsNames = false) ∧
    (TypeExpr.read (joined target) = .ok t → ∀ (m : Model) (s : Scope) (l : AliasHead),
      (m.usingsIn s).find? (·.isAlias l.name) = ofText? (l.line target) →
        m.resolveAlias s l.name = m.resolveText .global target) := by
  have hmark : ';' ∉ target.toList := TypeToken.not_mem_of_scan (TypeExpr.read_exact h)
    ⟨by decide, rfl, by decide, by decide⟩ (by decide)
  obtain ⟨hpaired, hat⟩ := TypeExpr.read_joined_of_pairsNames h
  refine ⟨fun before hbefore => exists_ofText? hbefore hmark, fun l => l.ofText?_line hmark,
    TypeExpr.read_joined_iff h, hpaired, hat, ?_⟩
  intro hjoined m s l hfirst
  have htarget : m.aliasTarget? s l.name = some (joined target) := by
    rw [Model.aliasTarget?_eq, aliasTarget?, hfirst, l.ofText?_line hmark]
    rfl
  rw [Model.resolveAlias_target htarget, Model.resolveText, Model.resolveText, hjoined, h]

/-- A global directive for an alias. -/
def rowsHead : AliasHead where
  isGlobal := true
  name := "Rows"
  afterGlobal := " "
  afterUsing := "\t"
  afterName := " "
  afterGlobal_ne := by decide
  afterGlobal_space := List.all_eq_true.1 (by decide)
  afterUsing_ne := by decide
  afterUsing_space := List.all_eq_true.1 (by decide)
  afterName_space := List.all_eq_true.1 (by decide)
  name_ne := by decide
  name_space := isSpace_eq_false_of_any (by decide)
  name_equals := by decide
  name_word := by decide

/-- The type of `(int? Id, string name)[,]`. -/
def rowsType : TypeExpr :=
  .array (.tuple ⟨.nullable (.keyword "int"), some "Id"⟩ ⟨.keyword "string", some "name"⟩ []) 1

def rowsFile : SourceFile :=
  ⟨"Rows.cs", [⟨.aliased "Rows", "(int?Id,string@name)[,]", true⟩], [], none⟩

theorem alias_exact_rows :
    (TypeExpr.read " (int? Id, string @name) [ , ] " = .ok rowsType ∧
      spacedNames " (int? Id, string @name) [ , ] ".toList = false) ∧
    ofText? "global using\tRows = (int? Id, string @name) [ , ] ;"
      = some ⟨.aliased "Rows", "(int?Id,string@name)[,]", true⟩ ∧
    TypeExpr.read "(int?Id,string@name)[,]" = .ok rowsType ∧
    (Model.build [rowsFile] []).resolveAlias .global "Rows"
      = some ⟨"(int? Id, string name)[,]", none, true, false⟩ := by
  have hread : TypeExpr.read " (int? Id, string @name) [ , ] " = .ok rowsType := by cbv
  have hspaced : spacedNames " (int? Id, string @name) [ , ] ".toList = false := by decide
  have hjoined : joined " (int? Id, string @name) [ , ] " = "(int?Id,string@name)[,]" := by decide
  have hresolve : (Model.build [rowsFile] []).resolveWithin 1 .global rowsType
      = some (some ⟨"(int? Id, string name)[,]", none, true, false⟩) := by
    decide +kernel
  obtain ⟨-, hline, hsame, -, -, halias⟩ := alias_exact hread
  have hrows := hline rowsHead
  have hkept := hsame.2 hspaced
  have hfirst : ((Model.build [rowsFile] []).usingsIn .global).find? (·.isAlias rowsHead.name)
      = ofText? (rowsHead.line " (int? Id, string @name) [ , ] ") := by
    rw [hrows, AliasHead.directive, hjoined]
    decide +kernel
  have hmeans := halias hkept _ _ rowsHead hfirst
  rw [AliasHead.directive, hjoined] at hrows
  rw [hjoined] at hkept
  refine ⟨⟨hread, hspaced⟩, hrows, hkept, hmeans.trans ?_⟩
  rw [Model.resolveText, hread]
  exact (Model.resolveWithin_eq hresolve).symm

def pairType : TypeExpr :=
  .tuple ⟨.keyword "int", some "Id"⟩ ⟨.keyword "string", some "Name"⟩ []

/-- The type of `(intId, stringName)`. -/
def lostType : TypeExpr :=
  .tuple ⟨.named none [] (.plain "intId"), none⟩ ⟨.named none [] (.plain "stringName"), none⟩ []

def jobType : TypeDecl := ⟨"Job", .class, none, [], 0, [], [], [], [], [], default⟩

/-- A file whose directive is for a tuple. -/
def pairFile : SourceFile where
  path := "Pair.cs"
  usings := (ofText? "using Pair = (int Id, string Name);").toList
  types := [jobType]
  damage := none

/-- What is recorded of a pair with two names is a pair of two other types. -/
theorem alias_of_pair :
    (TypeExpr.read "(int Id, string Name)" = .ok pairType ∧
      ofText? "using Pair = (int Id, string Name);"
        = some ⟨.aliased "Pair", "(intId,stringName)", false⟩ ∧
      TypeExpr.read "(intId,stringName)" = .ok lostType ∧ lostType ≠ pairType) ∧
    (Model.build [pairFile] []).resolveText .global "(int Id, string Name)"
      = some ⟨"(int Id, string Name)", some "System", false, false⟩ ∧
    (Model.build [pairFile] []).resolveAlias (.inside pairFile jobType) "Pair" = none := by
  have hline : ofText? "using Pair = (int Id, string Name);"
      = some ⟨.aliased "Pair", "(intId,stringName)", false⟩ := by
    decide
  have hfile : pairFile = ⟨"Pair.cs", [⟨.aliased "Pair", "(intId,stringName)", false⟩], [jobType],
      none⟩ := by
    rw [pairFile, hline]
    rfl
  have hlost : TypeExpr.read "(intId,stringName)" = .ok lostType := by cbv
  refine ⟨⟨by cbv, hline, hlost, by simp [lostType, pairType]⟩, ?_, ?_⟩
  · rw [hfile]
    decide +kernel
  · have hresolve : (Model.build [pairFile] []).resolveWithin 2 .global lostType = some none := by
      rw [hfile]
      decide +kernel
    have htarget : (Model.build [pairFile] []).aliasTarget? (.inside pairFile jobType) "Pair"
        = some "(intId,stringName)" := by
      rw [hfile]
      decide +kernel
    rw [Model.resolveAlias_target htarget, Model.resolveText, hlost]
    exact (Model.resolveWithin_eq hresolve).symm

end Using

end TaskWrappers
