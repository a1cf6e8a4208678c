import TaskWrappers.Proofs.Argument.Constant

/-!
# Named arguments

With any white space, and with or without an `@`, a name in front of a single `=` or `:` is the name
of the argument (`NamedArgument.ofText_text`). A word with a mark or a joiner in it is no name to
the reader, though: it is left in the text of an argument without a name
(`NamedArgument.ofText_text_of_isIdentifier`), which is then taken for the one that names the task.
-/

namespace TaskWrappers

open Text
open ConstantExpr (Blank)

/-- Whether a text is a word, whether or not all of its characters are those of a name. -/
def Text.isIdentifier (word : String) : Bool :=
  match word.toList with
  | [] => false
  | c :: cs => isWordStart c && cs.all isWord

theorem Text.isNameStart_of_isWordStart {c : Char} (h : isWordStart c = true) :
    isNameStart c = true := by
  unfold isWordStart at h
  unfold isNameStart isLetter
  split at h
  · rw [if_pos ‹_›]
    exact h
  · rw [if_neg ‹_›, Bool.or_eq_true]
    exact .inl (Bool.and_eq_true_iff.1 h).1

/-- An argument in writing that has a word for its name: `=` or `:` stands between the word and the
expression, and white space may stand between any two parts. -/
structure NamedArgument where
  before : Blank
  verbatim : Bool
  word : String
  behind : Blank
  colon : Bool
  space : Blank
  expression : String
  after : Blank
  trim_expression : trim expression.toList = expression.toList
  opens : expression.toList.head? ≠ some '=' ∧ expression.toList.head? ≠ some ':'

theorem Text.isIdentifier_iff {word : String} : isIdentifier word = true ↔
    ∃ c cs, word.toList = c :: cs ∧ isWordStart c = true ∧ ∀ d ∈ cs, isWord d = true := by
  rw [isIdentifier]
  cases word.toList with
  | nil => simp
  | cons c cs => simp

namespace NamedArgument

variable (a : NamedArgument)

def mark : String := if a.verbatim then "@" else ""

def sign : Char := if a.colon then ':' else '='

def text : String :=
  a.before.1 ++ a.mark ++ a.word ++ a.behind.1 ++ .singleton a.sign ++ a.space.1 ++ a.expression
    ++ a.after.1

/-- What is left of a trimmed text behind the sign. -/
def tail : List Char := trimEnd (a.space.1.toList ++ (a.expression.toList ++ a.after.1.toList))

theorem sign_cases : a.sign = '=' ∨ a.sign = ':' := by
  rw [sign]
  split
  · exact .inr rfl
  · exact .inl rfl

theorem isSpace_sign : isSpace a.sign = false := by
  obtain h | h := a.sign_cases <;> rw [h] <;> decide

theorem isSpace_blank (b : Blank) : ∀ c ∈ b.1.toList, isSpace c = true := List.all_eq_true.1 b.2

/-- What is left of a trimmed text behind the `@`. -/
def core : List Char := a.word.toList ++ (a.behind.1.toList ++ a.sign :: a.tail)

section Parts

variable {c : Char} {cs : List Char} (hchars : a.word.toList = c :: cs)
  (hstart : isNameStart c = true)
include hchars hstart

theorem trim_text : trim a.text.toList = a.mark.toList ++ a.core := by
  have htext : a.text.toList = a.before.1.toList ++ (a.mark.toList ++ a.word.toList
      ++ a.behind.1.toList ++ a.sign :: (a.space.1.toList
        ++ (a.expression.toList ++ a.after.1.toList))) := by
    simp [text, String.toList_append]
  have hhead : ∀ d, (a.mark.toList ++ a.word.toList ++ a.behind.1.toList
      ++ a.sign :: (a.space.1.toList ++ (a.expression.toList ++ a.after.1.toList))).head? = some d →
        isSpace d = false := by
    intro d hd
    rw [hchars, mark] at hd
    split at hd
    · cases hd
      decide
    · cases hd
      exact isSpace_of_isNameStart hstart
  rw [htext, trim, trimStart_append (isSpace_blank _), trimStart_eq_self hhead,
    trimEnd_append_cons a.isSpace_sign, List.append_assoc, List.append_assoc, core, tail]

/-- The name that is looked for goes on up to the first character that no name has. -/
theorem parts_text {good rest : List Char} (hcore : a.core = good ++ rest)
    (hgood : ∀ d ∈ good, isNameRest d = true)
    (hrest : ∀ d, rest.head? = some d → isNameRest d = false) :
    Argument.word (trim a.text.toList) = good ∧ Argument.behind (trim a.text.toList) = rest := by
  obtain ⟨htake, hdrop⟩ := takeWhile_append_of_isNameRest hrest hgood
  have hat : Argument.mark (good ++ rest) = [] := by
    rw [← hcore, core, hchars]
    refine if_neg ?_
    rintro ⟨⟩
    cases hstart
  rw [a.trim_text hchars hstart, hcore, mark]
  split
  · exact ⟨htake, hdrop⟩
  · rw [String.toList_empty, List.nil_append, Argument.word, Argument.behind, hat]
    exact ⟨htake, hdrop⟩

end Parts

theorem head?_tail : a.tail.head? ≠ some '=' ∧ a.tail.head? ≠ some ':' := by
  have hcases {c : Char} (hc : a.tail.head? = some c) :
      isSpace c = true ∨ a.expression.toList.head? = some c := by
    obtain ⟨rest, hrest⟩ := List.head?_eq_some_iff.1 hc
    obtain ⟨more, hmore⟩ : a.tail <+: _ := List.rdropWhile_prefix isSpace _
    have hhead := congrArg List.head? hmore
    rw [hrest, List.cons_append, List.head?_cons, List.head?_append, List.head?_append] at hhead
    cases hspace : a.space.1.toList.head? with
    | some d =>
      rw [hspace] at hhead
      cases hhead
      exact .inl (isSpace_blank _ _ (List.mem_of_head? hspace))
    | none =>
      rw [hspace, Option.none_or] at hhead
      cases hexpression : a.expression.toList.head? with
      | some d =>
        rw [hexpression] at hhead
        cases hhead
        exact .inr rfl
      | none =>
        rw [hexpression, Option.none_or] at hhead
        exact .inl (isSpace_blank _ _ (List.mem_of_head? hhead.symm))
  constructor
  · intro hc
    exact (hcases hc).elim (by decide) a.opens.1
  · intro hc
    exact (hcases hc).elim (by decide) a.opens.2

theorem trim_tail : trim a.tail = a.expression.toList := by
  rw [tail, ← List.append_assoc, trimEnd_append (isSpace_blank _)]
  cases hlast : a.expression.toList.getLast? with
  | none =>
    have hnil := List.getLast?_eq_none_iff.1 hlast
    rw [hnil, List.append_nil, trimEnd_eq_nil (isSpace_blank _)]
    rfl
  | some c =>
    have hend : trimEnd (a.space.1.toList ++ a.expression.toList)
        = a.space.1.toList ++ a.expression.toList := by
      refine trimEnd_eq_self fun d hd => ?_
      rw [List.getLast?_append, hlast] at hd
      cases hd
      exact isSpace_of_getLast? a.trim_expression hlast
    rw [hend, trim, trimStart_append (isSpace_blank _)]
    exact a.trim_expression

theorem assigned?_of_isSpace {gap : List Char} (hgap : ∀ c ∈ gap, isSpace c = true) :
    Argument.assigned? (gap ++ a.sign :: a.tail) = some a.tail := by
  have htrim : trimStart (gap ++ a.sign :: a.tail) = a.sign :: a.tail := by
    rw [trimStart_append hgap]
    exact List.dropWhile_cons_of_neg (by rw [a.isSpace_sign]; exact Bool.false_ne_true)
  rw [Argument.assigned?, htrim]
  obtain h | h := a.sign_cases
  · rw [h]
    exact if_neg a.head?_tail.1
  · rw [h]
    exact if_neg a.head?_tail.2

/-- A name in front of the sign is the name of the argument. -/
theorem ofText_text (hname : isName a.word = true) :
    Argument.ofText a.text = ⟨some a.word, a.expression⟩ := by
  obtain ⟨c, cs, hchars, hstart, -⟩ := isName_iff.1 hname
  have hbreaks : ∀ d, (a.behind.1.toList ++ a.sign :: a.tail).head? = some d →
      isNameRest d = false := by
    intro d hd
    rw [List.head?_append] at hd
    cases hblank : a.behind.1.toList.head? with
    | some b =>
      rw [hblank] at hd
      cases hd
      have hb := isSpace_blank _ _ (List.mem_of_head? hblank)
      exact Bool.eq_false_iff.2 fun hrest =>
        Bool.false_ne_true ((isSpace_of_isNameRest hrest).symm.trans hb)
    | none =>
      rw [hblank] at hd
      cases hd
      obtain h | h := a.sign_cases <;> rw [h] <;> decide
  obtain ⟨hword, hbehind⟩ := a.parts_text hchars hstart rfl (isNameRest_of_isName hname) hbreaks
  have hne : Argument.word (trim a.text.toList) ≠ [] := by
    rw [hword, hchars]
    exact List.cons_ne_nil c cs
  have hvalue : Argument.assigned? (Argument.behind (trim a.text.toList)) = some a.tail := by
    rw [hbehind]
    exact a.assigned?_of_isSpace (isSpace_blank _)
  rw [Argument.ofText_of_assigned? hne hvalue, hword, a.trim_tail, String.ofList_toList,
    String.ofList_toList]

theorem assigned?_of_isWord {d : Char} (hd : isWord d = true) (rest : List Char) :
    Argument.assigned? (d :: rest) = none := by
  have htrim : trimStart (d :: rest) = d :: rest :=
    List.dropWhile_cons_of_neg (by rw [isSpace_of_isWord hd]; exact Bool.false_ne_true)
  rw [Argument.assigned?, htrim]
  split
  · rename_i heq
    cases heq
    cases hd
  · rename_i heq
    cases heq
    cases hd
  · rfl

/-- A word that is no name is part of a positional argument. -/
theorem ofText_text_of_isIdentifier (hword : isIdentifier a.word = true)
    (hname : isName a.word = false) : Argument.ofText a.text = ⟨none, trimmed a.text⟩ := by
  obtain ⟨c, cs, hchars, hstart, hrest⟩ := isIdentifier_iff.1 hword
  have hc : isNameStart c = true := isNameStart_of_isWordStart hstart
  obtain ⟨d, hfind⟩ : ∃ d, cs.find? (!isNameRest ·) = some d := by
    cases hfind : cs.find? (!isNameRest ·) with
    | some d => exact ⟨d, rfl⟩
    | none =>
      have hall : isName a.word = true := by
        refine isName_iff.2 ⟨c, cs, hchars, hc, fun d hd => ?_⟩
        simpa using List.find?_eq_none.1 hfind d hd
      rw [hname] at hall
      cases hall
  obtain ⟨hd, good, more, rfl, hgood⟩ := List.find?_eq_some_iff_append.1 hfind
  have hcore : a.core
      = (c :: good) ++ d :: (more ++ (a.behind.1.toList ++ a.sign :: a.tail)) := by
    rw [core, hchars]
    simp
  have hopening : ∀ b ∈ c :: good, isNameRest b = true := by
    intro b hb
    obtain rfl | hb := List.mem_cons.1 hb
    · exact isNameRest_of_isNameStart hc
    · simpa using hgood b hb
  have hbreaks : ∀ b, (d :: (more ++ (a.behind.1.toList ++ a.sign :: a.tail))).head? = some b →
      isNameRest b = false := by
    rintro b ⟨⟩
    simpa using hd
  obtain ⟨-, hbehind⟩ := a.parts_text hchars hc hcore hopening hbreaks
  apply Argument.ofText_of_assigned?_eq_none
  rw [hbehind]
  exact assigned?_of_isWord (hrest d (by simp)) _

end NamedArgument

/-- A single `=` or `:` behind a name makes it the argument's, and only there. -/
theorem Argument.ofText_exact (a : NamedArgument) (text : String) :
    (isName a.word = true → ofText a.text = ⟨some a.word, a.expression⟩) ∧
    (isIdentifier a.word = true → isName a.word = false →
      ofText a.text = ⟨none, trimmed a.text⟩) ∧
    (∀ (m : Model) (s : Scope) (v : String), m.constantValue s text = some v →
      ofText text = ⟨none, trimmed text⟩ ∧
      ∀ (marker : Marker) (written declared : String) (before after : List String) (span : Span)
        (more : List Attribute), marker.isMeant written = true →
        (∀ t ∈ before, (ofText t).name.isSome = true) →
          TaskName.resolve m s marker
              (⟨written, (before ++ text :: after).map ofText, span⟩ :: more) declared
            = ⟨v, .attributed⟩) ∧
    (bytes (trimmed text)).take (nameBytes 0 (trim text.toList))
      = bytes (.ofList (mark (trim text.toList) ++ word (trim text.toList))) ∧
    (bytes (trimmed text)).drop (nameBytes 0 (trim text.toList))
      = bytes (.ofList (behind (trim text.toList))) ∧
    ∀ n : String, (ofText text).name = some n → n = .ofList (word (trim text.toList)) := by
  obtain ⟨hword, hbehind⟩ := bytes_nameBytes (trim text.toList)
  refine ⟨a.ofText_text, a.ofText_text_of_isIdentifier,
    fun m s v h => ⟨ofText_of_constant h, ?_⟩, hword, hbehind, fun n => name_ofText⟩
  intro marker written declared before after span more hmeant hbefore
  exact TaskName.resolve_of_constant h hbefore after hmeant declared span more

/-- An argument for a verbatim name. -/
def tagArgument : NamedArgument where
  before := ⟨"\n    ", by decide⟩
  verbatim := true
  word := "tag"
  behind := ⟨"  ", by decide⟩
  colon := false
  space := ⟨"\t", by decide⟩
  expression := "\"Greet\""
  after := ⟨"\n", by decide⟩
  trim_expression := by decide
  opens := by decide

/-- An argument whose name has its accent as a character of its own. -/
def accentArgument : NamedArgument :=
  { tagArgument with verbatim := false, word := "Cafe\u0301", colon := true }

theorem Argument.ofText_exact_tag :
    (isName tagArgument.word = true ∧
      ofText "\n    @tag  =\t\"Greet\"\n" = ⟨some "tag", "\"Greet\""⟩) ∧
    (isIdentifier accentArgument.word = true ∧ isName accentArgument.word = false ∧
      ofText "\n    Cafe\u0301  :\t\"Greet\"\n" = ⟨none, "Cafe\u0301  :\t\"Greet\""⟩) ∧
    hello.constantValue .global " App.Names.Greet + \"!\" " = some "Hello!" ∧
    Marker.durableTask.isMeant "DurableTask" = true ∧
    (ofText tagArgument.text).name.isSome = true ∧
    TaskName.resolve hello .global .durableTask [⟨"DurableTask",
        [tagArgument.text, " App.Names.Greet + \"!\" "].map ofText, default⟩] "Greeter"
      = ⟨"Hello!", .attributed⟩ := by
  have htag : isName tagArgument.word = true := by decide
  have haccent : isIdentifier accentArgument.word = true := by decide
  have hplain : isName accentArgument.word = false := by decide
  have htext : tagArgument.text = "\n    @tag  =\t\"Greet\"\n" := by decide
  have haccented : accentArgument.text = "\n    Cafe\u0301  :\t\"Greet\"\n" := by decide
  have hvalue : hello.constantValue .global " App.Names.Greet + \"!\" " = some "Hello!" := by
    decide +kernel
  have hmeant : Marker.durableTask.isMeant "DurableTask" = true := by decide
  obtain ⟨hnamed, -, hconstant, -⟩ :=
    Argument.ofText_exact tagArgument " App.Names.Greet + \"!\" "
  obtain ⟨-, hword, -⟩ := Argument.ofText_exact accentArgument accentArgument.text
  have hfirst : ofText tagArgument.text = ⟨some "tag", "\"Greet\""⟩ := hnamed htag
  have hsome : ∀ t ∈ [tagArgument.text], (ofText t).name.isSome = true := by
    intro t ht
    rw [List.mem_singleton.1 ht, hfirst]
    rfl
  refine ⟨⟨htag, htext ▸ hfirst⟩, ⟨haccent, hplain, ?_⟩, hvalue, hmeant,
    hsome _ List.mem_cons_self, ?_⟩
  · have hwhole : trimmed "\n    Cafe\u0301  :\t\"Greet\"\n" = "Cafe\u0301  :\t\"Greet\"" := by
      decide
    have hread := hword haccent hplain
    rwa [haccented, hwhole] at hread
  · exact (hconstant _ _ _ hvalue).2 .durableTask "DurableTask" "Greeter" _ [] default [] hmeant
      hsome

/-- An argument whose name has its accent as a character of its own is read without its name, and
is then taken for the task's name, which it does not give. -/
theorem Argument.ofText_accent :
    isIdentifier "Cafe\u0301" = true ∧
    ofText "Cafe\u0301 = \"x\"" = ⟨none, "Cafe\u0301 = \"x\""⟩ ∧
    TaskName.resolve hello .global .durableTask
        [⟨"DurableTask", ["Cafe\u0301 = \"x\"", "\"Greet\""].map ofText, default⟩] "Greeter"
      = ⟨"Greeter", .fallback "Cafe\u0301 = \"x\"" default⟩ := by
  decide +kernel

end TaskWrappers
