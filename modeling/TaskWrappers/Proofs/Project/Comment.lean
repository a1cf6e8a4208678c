import TaskWrappers.Outcome
import TaskWrappers.Proofs.Project.Switch

/-!
# Comments in project files

References and the switch for implicit usings are looked for in the text of a project file, with no
regard for comments. A comment between elements is therefore read like any other text: the modules
that it refers to are added between those in front of it and those behind it, and it has its say in
the switch if nothing in front of it has. So a comment changes nothing only if it speaks of neither,
and a reference to the host that is taken out by a comment still makes a project that runs in it.

Both follow from how a text is read that has another one behind it. Where nothing is left open in
the first (`isWhole`), every reference that starts in it ends in it.
-/

namespace TaskWrappers

open Text

namespace Project

/-- What stands behind the opening quotation mark of an `Include` attribute's value. -/
def valueStart? (cs : List Char) : Option (List Char) := do
  let cs ← dropExact? "Include".toList cs
  let cs ← dropExact? ['='] (trimStart cs)
  dropExact? ['"'] (trimStart cs)

theorem includeHere?_eq (cs : List Char) : includeHere? cs
    = (valueStart? cs).bind fun cs => (cut? (· == '"') cs).bind fun (value, rest) =>
        if value.isEmpty then none else some (value, rest) := by
  rw [includeHere?, valueStart?]
  cases dropExact? "Include".toList cs with
  | none => rfl
  | some cs =>
    dsimp only [Option.bind_eq_bind, Option.bind_some]
    cases dropExact? ['='] (trimStart cs) <;> rfl

/-- Whether a text starts with an `Include` attribute that does not end in the text. -/
def opensValue (cs : List Char) : Bool := (valueStart? cs).any (!·.contains '"')

/-- Whether the value of an attribute is left open in a text, if a reference is opened in front of
it. -/
def leavesOpen (before : Char) : List Char → Bool
  | [] => false
  | c :: cs => (!isWord before && opensValue (c :: cs)) || (c != '>' && leavesOpen c cs)

/-- Whether nothing that is opened in a text is left open: every tag has its end there, and every
value that names a module its quotation mark. -/
def isWhole : List Char → Bool
  | [] => true
  | c :: cs => (c != '<' || cs.contains '>')
      && ReferenceKind.all.all (fun kind =>
        (dropExact? (opening kind) (c :: cs)).all (!leavesOpen 'e' ·))
      && isWhole cs

section Append

variable {cs : List Char} (hend : '>' ∈ cs)
include hend

theorem valueStart?_append (rest : List Char) :
    valueStart? (cs ++ rest) = (valueStart? cs).map (· ++ rest) := by
  rw [valueStart?, valueStart?, dropExact?_append_of_mem hend (by decide)]
  cases hname : dropExact? "Include".toList cs with
  | none => rfl
  | some behind =>
    obtain ⟨happend, hbehind⟩ := trimStart_append_of_mem
      (mem_of_dropExact? hname hend (by decide)) (by decide) rest
    dsimp only [Option.map_some, Option.bind_eq_bind, Option.bind_some]
    rw [happend, dropExact?_append_of_mem hbehind (by decide)]
    cases hequals : dropExact? ['='] (trimStart behind) with
    | none => rfl
    | some more =>
      obtain ⟨happend, hmore⟩ := trimStart_append_of_mem
        (mem_of_dropExact? hequals hbehind (by decide)) (by decide) rest
      dsimp only [Option.map_some, Option.bind_some]
      rw [happend, dropExact?_append_of_mem hmore (by decide)]

theorem includeHere?_append_of_mem (hopen : opensValue cs = false) (rest : List Char) :
    includeHere? (cs ++ rest) = (includeHere? cs).map fun found => (found.1, found.2 ++ rest) := by
  rw [includeHere?_eq, includeHere?_eq, valueStart?_append hend]
  cases hstart : valueStart? cs with
  | none => rfl
  | some behind =>
    have hmark : '"' ∈ behind := by simpa [opensValue, hstart] using hopen
    cases hcut : cut? (· == '"') behind with
    | none => exact absurd (cut?_eq_none_iff.1 hcut '"' hmark) (by decide)
    | some found =>
      have happend : cut? (· == '"') (behind ++ rest) = some (found.1, found.2 ++ rest) := by
        rw [cut?_append, hcut]
        rfl
      rw [Option.map_some, Option.bind_some, Option.bind_some, happend, hcut, Option.bind_some,
        Option.bind_some]
      dsimp only
      split <;> rfl

theorem includeValue?_append_of_mem {before : Char} (hopen : leavesOpen before cs = false)
    (rest : List Char) : includeValue? before (cs ++ rest)
      = (includeValue? before cs).map fun found => (found.1, found.2 ++ rest) := by
  induction cs generalizing before with
  | nil => cases hend
  | cons c cs ih =>
    rw [leavesOpen, Bool.or_eq_false_iff] at hopen
    by_cases hfound : isWord before = false ∧ (includeHere? (c :: cs)).isSome = true
    · obtain ⟨hbefore, hfound⟩ := hfound
      obtain ⟨found, hfound⟩ := Option.isSome_iff_exists.1 hfound
      have hopens : opensValue (c :: cs) = false := by simpa [hbefore] using hopen.1
      have happend := includeHere?_append_of_mem hend hopens rest
      rw [hfound, Option.map_some] at happend
      rw [includeValue?_here hbefore hfound, includeValue?_here hbefore happend, Option.map_some]
    · have hnone : isWord before = false → includeHere? (c :: cs) = none := fun hbefore =>
        Option.not_isSome_iff_eq_none.1 fun hsome => hfound ⟨hbefore, hsome⟩
      have happend : isWord before = false → includeHere? (c :: (cs ++ rest)) = none := by
        intro hbefore
        have hopens : opensValue (c :: cs) = false := by simpa [hbefore] using hopen.1
        rw [← List.cons_append, includeHere?_append_of_mem hend hopens rest, hnone hbefore]
        rfl
      rw [List.cons_append, includeValue?_step happend, includeValue?_step hnone]
      split
      · rfl
      · rename_i hc
        rw [bne_iff_ne.2 hc, Bool.true_and] at hopen
        exact ih ((List.mem_cons.1 hend).resolve_left (Ne.symm hc)) hopen.2

end Append

theorem isWhole_of_suffix {cs rest : List Char} (hrest : rest <:+ cs) (h : isWhole cs = true) :
    isWhole rest = true := by
  obtain ⟨lead, rfl⟩ := hrest
  induction lead with
  | nil => exact h
  | cons c lead ih =>
    rw [List.cons_append, isWhole, Bool.and_eq_true] at h
    exact ih h.2

/-- Whether a reference starts somewhere in a whole text, and where it ends, is settled within the
text. -/
theorem reference?_append {c : Char} {cs : List Char} (h : isWhole (c :: cs) = true)
    (rest : List Char) : reference? (c :: cs ++ rest)
      = (reference? (c :: cs)).map fun found => (found.1, found.2 ++ rest) := by
  have hmark : ∀ kind : ReferenceKind, '>' ∉ opening kind := by
    intro kind
    cases kind <;> decide
  rw [isWhole, Bool.and_eq_true, Bool.and_eq_true] at h
  obtain ⟨⟨hend, hopen⟩, -⟩ := h
  by_cases hkind : ∃ kind, opening kind <+: c :: cs
  · obtain ⟨kind, behind, hbehind⟩ := hkind
    have hc : c = '<' := (List.cons.inj hbehind).1.symm
    have hcs : '>' ∈ c :: cs := by
      rw [hc] at hend
      exact List.mem_cons_of_mem c (List.contains_iff_mem.1 (by simpa using hend))
    have hopen : leavesOpen 'e' behind = false := by
      have hall := List.all_eq_true.1 hopen kind (mem_all kind)
      rw [← hbehind, dropExact?_append, Option.all_some] at hall
      simpa using hall
    rw [← hbehind] at hcs ⊢
    have hmem : '>' ∈ behind := (List.mem_append.1 hcs).resolve_left (hmark kind)
    have hhead : (behind ++ rest).head? = behind.head? :=
      List.head?_append_of_ne_nil _ (List.ne_nil_of_mem hmem)
    rw [List.append_assoc, reference?_opening, reference?_opening, hhead,
      includeValue?_append_of_mem hmem hopen]
    split
    · rfl
    · cases includeValue? 'e' behind <;> rfl
  · rw [not_exists] at hkind
    rw [reference?_eq_none hkind, Option.map_none]
    refine reference?_eq_none fun kind => ?_
    by_cases hc : c = '<'
    · have hcs : '>' ∈ c :: cs := by
        rw [hc] at hend
        exact List.mem_cons_of_mem c (List.contains_iff_mem.1 (by simpa using hend))
      rw [← dropExact?_eq_none_iff, dropExact?_append_of_mem hcs (hmark kind),
        dropExact?_eq_none_iff.2 (hkind kind)]
      rfl
    · rintro ⟨tail, htail⟩
      exact hc (List.cons.inj htail).1.symm

/-- What is read of a text behind a whole one is added to what is read of that one. -/
theorem references_append {cs : List Char} (h : isWhole cs = true) (rest : List Char) :
    references (cs ++ rest) = references cs ++ references rest := by
  fun_induction references cs with
  | case1 => rfl
  | case2 c tail name more hfound ih =>
    have happend := reference?_append h rest
    rw [hfound, Option.map_some] at happend
    rw [references_of_some happend, ih (isWhole_of_suffix (suffix_of_reference? hfound) h)]
    rfl
  | case3 c tail hnone ih =>
    have happend := reference?_append h rest
    rw [hnone, Option.map_none, List.cons_append] at happend
    rw [List.cons_append, references_of_none happend,
      ih (isWhole_of_suffix (List.suffix_cons c tail) h)]

theorem modules_append {a : String} (h : isWhole a.toList = true) (b : String) :
    (read (a ++ b)).modules = (read a).modules ++ (read b).modules := by
  simp only [read, String.toList_append, references_append h, List.filter_append, List.map_append]

theorem implicitUsings_eq (text : String) :
    (read text).implicitUsings = ((switch? text.toList).map isOn).getD false := rfl

/-- A comment with what stands in it. -/
def comment (c : String) : String := "<!--" ++ c ++ "-->"

theorem opensTag_comment (c b : String) : opensTag (comment c ++ b).toList = true := by
  rw [comment, String.toList_append, String.toList_append, String.toList_append]
  rfl

theorem closesTag_concat (cs : List Char) : closesTag (cs ++ ['>']) = true := by
  induction cs with
  | nil => rfl
  | cons c cs ih =>
    have hmem : (c :: (cs ++ ['>'])).contains '>' = true := by simp
    rw [List.cons_append, closesTag, hmem, Bool.or_true, ih]
    rfl

theorem closesTag_comment (c : String) : closesTag (comment c).toList = true := by
  have htext : (comment c).toList = ("<!--" ++ c ++ "--").toList ++ ['>'] := by
    simp [comment]
  rw [htext]
  exact closesTag_concat _

/-- Two texts that meet between elements: in the first nothing is left open, and on both sides the
next thing that is no white space is a tag. -/
structure Between (a b : String) : Prop where
  whole : isWhole a.toList = true
  closes : closesTag a.toList = true
  opens : opensTag b.toList = true

section Exact

variable {a b : String} (hbetween : Between a b) (c : String)
include hbetween

theorem switch?_comment : switch? (a ++ (comment c ++ b)).toList
    = (switch? a.toList <|> (switch? (comment c).toList <|> switch? b.toList)) := by
  rw [String.toList_append, switch?_append hbetween.closes (opensTag_comment c b),
    String.toList_append, switch?_append (closesTag_comment c) hbetween.opens]

/-- A comment has a say in the switch only if nothing before it has, and then unless it says what
stands behind it. -/
theorem implicitUsings_comment_iff :
    (read (a ++ (comment c ++ b))).implicitUsings = (read (a ++ b)).implicitUsings ↔
      (switch? a.toList).isSome = true ∨ switch? (comment c).toList = none ∨
        (read (comment c)).implicitUsings = (read b).implicitUsings := by
  rw [implicitUsings_eq, implicitUsings_eq, implicitUsings_eq, implicitUsings_eq,
    switch?_comment hbetween, String.toList_append, switch?_append hbetween.closes hbetween.opens]
  cases switch? a.toList with
  | some word => exact iff_of_true rfl (.inl rfl)
  | none =>
    cases switch? (comment c).toList with
    | none => exact iff_of_true rfl (.inr (.inl rfl))
    | some word => simp

end Exact

/-- A comment between elements is read like what stands around it. It changes nothing exactly if it
refers to no module, and says nothing of the switch that is not settled before it or said behind
it. -/
theorem comment_exact {a b : String} (hbetween : Between a b) (c : String) :
    ((read (a ++ comment c ++ b)).modules = (read (a ++ b)).modules ↔
      (read (comment c ++ b)).modules = (read b).modules) ∧
    (isWhole (comment c).toList = true →
      (read (a ++ comment c ++ b)).modules
          = (read a).modules ++ (read (comment c)).modules ++ (read b).modules ∧
        ((read (a ++ comment c ++ b)).modules = (read (a ++ b)).modules ↔
          (read (comment c)).modules = [])) ∧
    ((read (a ++ comment c ++ b)).implicitUsings = (read (a ++ b)).implicitUsings ↔
      (switch? a.toList).isSome = true ∨ switch? (comment c).toList = none ∨
        (read (comment c)).implicitUsings = (read b).implicitUsings) := by
  have hleft (t : String) : (read (a ++ t)).modules = (read a).modules ++ (read t).modules :=
    modules_append hbetween.whole t
  rw [String.append_assoc, hleft, hleft, List.append_cancel_left_eq]
  refine ⟨Iff.rfl, fun hwhole => ?_, implicitUsings_comment_iff hbetween c⟩
  rw [modules_append hwhole, List.append_assoc]
  exact ⟨rfl, List.append_left_eq_self⟩

theorem comment_exact_group :
    (Between "<ItemGroup>\n  " "\n  <Reference Include=\"New\" />\n</ItemGroup>" ∧
      isWhole (comment " was <Reference Include=\"Old\" /> ").toList = true) ∧
    (read ("<ItemGroup>\n  " ++ comment " was <Reference Include=\"Old\" /> "
      ++ "\n  <Reference Include=\"New\" />\n</ItemGroup>")).modules = ["Old", "New"] := by
  have hbetween : Between "<ItemGroup>\n  " "\n  <Reference Include=\"New\" />\n</ItemGroup>" :=
    ⟨by decide, by decide, by decide⟩
  have hwhole : isWhole (comment " was <Reference Include=\"Old\" /> ").toList = true := by decide
  obtain ⟨-, hmodules, -⟩ := comment_exact hbetween " was <Reference Include=\"Old\" /> "
  refine ⟨⟨hbetween, hwhole⟩, (hmodules hwhole).1.trans ?_⟩
  decide +kernel

/-- What was taken out of a project by a comment. -/
def droppedHost : String :=
  " <ImplicitUsings>enable</ImplicitUsings>\n  <ItemGroup><PackageReference Include=\""
    ++ Mode.hostModule ++ "\" /></ItemGroup> "

/-- A project that no longer refers to the host is still one that runs in it. -/
theorem read_comment_host :
    read ("<Project>\n  " ++ comment droppedHost ++ "\n</Project>\n")
        = ⟨none, [Mode.hostModule], true⟩ ∧
    read ("<Project>\n  " ++ "\n</Project>\n") = ⟨none, [], false⟩ ∧
    Mode.detect [Mode.hostModule] = .hostIntegrated ∧ Mode.detect [] = .standalone := by
  decide +kernel

end Project

end TaskWrappers
