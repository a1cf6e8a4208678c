import TaskWrappers.Proofs.Project.Search

/-!
# References as they are written

Every reference that is written in a project file is read, once and in its place
(`Project.modules_written`). A search that starts at an element ends within it: in front of the
`Include` attribute nothing is taken for one (`Project.includeValue?_append`), and behind its value
no reference starts before the next element. It is left to the writer that no other attribute is
called like it, that tags are closed, and that the text between the elements opens no reference.
-/

namespace TaskWrappers

open Text

/-- Whether a text starts with a word that ends there. -/
def Text.opensWith (word cs : List Char) : Bool :=
  word.isPrefixOf cs && (cs.drop word.length).head?.all (!isWord ·)

/-- Whether a word stands in a text behind a character, with no word character on either side. -/
def Text.holdsWord (word : List Char) (before : Char) : List Char → Bool
  | [] => false
  | c :: cs => (!isWord before && opensWith word (c :: cs)) || holdsWord word c cs

namespace Project

/-- An `Include` attribute's name ends where no word goes on. -/
theorem exists_of_includeHere? {cs : List Char} {found : List Char × List Char}
    (h : includeHere? cs = some found) :
    ∃ c rest, cs = "Include".toList ++ c :: rest ∧ isWord c = false := by
  obtain ⟨behind, hname, h⟩ := Option.bind_eq_some_iff.1 h
  obtain ⟨more, hequals, -⟩ := Option.bind_eq_some_iff.1 h
  rw [dropExact?_eq_some_iff] at hname hequals
  cases behind with
  | nil => cases hequals
  | cons c rest =>
    refine ⟨c, rest, hname, ?_⟩
    by_cases hc : isSpace c = true
    · rw [Bool.eq_false_iff]
      intro hword
      rw [isSpace_of_isWord hword] at hc
      cases hc
    · rw [trimStart, List.dropWhile_cons_of_neg hc] at hequals
      rw [(List.cons.inj hequals).1]
      decide

/-- What seems to be the name of an attribute in front of the real one is a word of what stands
there, which ends in white space. -/
theorem includeHere?_append {cs : List Char} {last : Char} (hlast : cs.getLast? = some last)
    (hspace : isSpace last = true) (hword : opensWith "Include".toList cs = false)
    (tail : List Char) : includeHere? (cs ++ ("Include".toList ++ tail)) = none := by
  rw [Option.eq_none_iff_forall_not_mem]
  intro found hfound
  obtain ⟨c, rest, htext, hc⟩ := exists_of_includeHere? hfound
  have hsolid : ∀ d ∈ "Include".toList, isSpace d = false := isSpace_eq_false_of_any (by decide)
  have hname : "Include".toList <+: cs ++ ("Include".toList ++ tail) := ⟨c :: rest, htext.symm⟩
  -- the name ends before the white space does
  have hlength : "Include".toList.length < cs.length := by
    by_contra hle
    have hstarts : cs <+: "Include".toList := List.prefix_of_prefix_length_le
      (List.prefix_append cs _) hname (Nat.le_of_not_lt hle)
    rw [hsolid last (hstarts.subset (List.mem_of_getLast? hlast))] at hspace
    cases hspace
  obtain ⟨behind, rfl⟩ := List.prefix_of_prefix_length_le hname (List.prefix_append cs _) hlength.le
  have hbehind : behind.head? = some c := by
    rw [List.append_assoc, List.append_cancel_left_eq] at htext
    cases behind with
    | nil => simp at hlength
    | cons d behind => rw [List.head?_cons, (List.cons.inj htext).1]
  have hopens : opensWith "Include".toList ("Include".toList ++ behind) = true := by
    rw [opensWith, List.isPrefixOf_iff_prefix.2 (List.prefix_append _ _), List.drop_left, hbehind,
      Option.all_some, hc]
    rfl
  rw [hopens] at hword
  cases hword

/-- The first attribute of the name is found, whatever stands before it that does not end the
element. -/
theorem includeValue?_append {tail : List Char} {found : List Char × List Char}
    (hfound : includeHere? ("Include".toList ++ tail) = some found) :
    ∀ {before : Char} {cs : List Char}, isSpace (cs.getLastD before) = true →
      holdsWord "Include".toList before cs = false → '>' ∉ cs →
        includeValue? before (cs ++ ("Include".toList ++ tail)) = some found
  | before, [], hlast, _, _ => by
    refine includeValue?_here (Bool.eq_false_iff.2 fun hword => ?_) hfound
    rw [List.getLastD_nil, isSpace_of_isWord hword] at hlast
    cases hlast
  | before, c :: cs, hlast, hword, hend => by
    rw [holdsWord, Bool.or_eq_false_iff] at hword
    rw [List.mem_cons, not_or] at hend
    rw [List.cons_append, includeValue?_step, if_neg (Ne.symm hend.1)]
    · exact includeValue?_append hfound (by rwa [List.getLastD_cons] at hlast) hword.2 hend.2
    · intro hbefore
      rw [hbefore] at hword
      have hsome : (c :: cs).getLast? = some ((c :: cs).getLastD before) := by
        rw [List.getLastD_eq_getLast?, List.getLast?_cons]
        rfl
      exact includeHere?_append hsome hlast hword.1 tail

theorem includeHere?_value {value beforeEquals afterEquals : List Char}
    (hbefore : ∀ c ∈ beforeEquals, isSpace c = true) (hafter : ∀ c ∈ afterEquals, isSpace c = true)
    (hne : value ≠ []) (hquote : '"' ∉ value) (rest : List Char) :
    includeHere? ("Include".toList
        ++ (beforeEquals ++ '=' :: (afterEquals ++ '"' :: (value ++ '"' :: rest))))
      = some (value, rest) := by
  have hempty : value.isEmpty = false := by simpa using hne
  have hequals : trimStart ('=' :: (afterEquals ++ '"' :: (value ++ '"' :: rest)))
      = ['='] ++ (afterEquals ++ '"' :: (value ++ '"' :: rest)) := rfl
  have hmark : trimStart ('"' :: (value ++ '"' :: rest)) = ['"'] ++ (value ++ '"' :: rest) := rfl
  rw [includeHere?, dropExact?_append, Option.bind_eq_bind, Option.bind_some,
    trimStart_append hbefore, hequals, dropExact?_append, Option.bind_some,
    trimStart_append hafter, hmark, dropExact?_append, Option.bind_some,
    cut?_append_cons hquote, Option.bind_eq_bind, Option.bind_some]
  simp only [hempty, Bool.false_eq_true, if_false]

/-! ## Values -/

/-- Whether a character stands between the folders of a path. -/
def isSlash (c : Char) : Bool := c == '/' || c == '\\'

/-- How the value of an `Include` attribute names a module: a package by itself, an assembly with or
without details, a project by its file in any folder. -/
inductive Refers : ReferenceKind → List Char → List Char → Prop where
  | package (name : List Char) : Refers .package name name
  | assembly {name : List Char} (hname : ',' ∉ name) : Refers .assembly name name
  | detailed {name : List Char} (hname : ',' ∉ name) (details : List Char) :
      Refers .assembly name (name ++ ',' :: details)
  | file {name ext : List Char} (hname : name.any isSlash = false)
      (hext : ext.any isSlash = false) (hdot : '.' ∉ ext) :
      Refers .project name (name ++ '.' :: ext)
  | path {name ext : List Char} (hname : name.any isSlash = false)
      (hext : ext.any isSlash = false) (hdot : '.' ∉ ext) (folders : List Char) {mark : Char}
      (hmark : isSlash mark = true) :
      Refers .project name (folders ++ mark :: (name ++ '.' :: ext))

theorem Refers.value_ne {kind : ReferenceKind} {name value : List Char}
    (h : Refers kind name value) (hname : name ≠ []) : value ≠ [] := by
  cases h <;> simp [hname]

/-- The name of a file without its extension. -/
theorem cutLast?_file {name ext : List Char} (hname : name.any isSlash = false)
    (hext : ext.any isSlash = false) (hdot : '.' ∉ ext) :
    (∀ c ∈ name ++ '.' :: trimEnd ext, isSlash c = false) ∧
      cutLast? (· == '.') (name ++ '.' :: trimEnd ext) = some (name, trimEnd ext) := by
  have hsub : trimEnd ext ⊆ ext := (List.rdropWhile_prefix isSpace ext).subset
  constructor
  · intro c hc
    rcases List.mem_append.1 hc with hc | hc
    · exact Bool.eq_false_iff.2 (List.any_eq_false.1 hname c hc)
    · rcases List.mem_cons.1 hc with rfl | hc
      · decide
      · exact Bool.eq_false_iff.2 (List.any_eq_false.1 hext c (hsub hc))
  · exact cutLast?_append_cons (fun hmem => hdot (hsub hmem)) name

section Name

variable {name : List Char} (hne : name ≠ []) (htrim : trim name = name)
include hne htrim

theorem trim_name_append {c : Char} (hc : isSpace c = false) (cs : List Char) :
    trim (name ++ c :: cs) = name ++ c :: trimEnd cs := by
  have hstart : trimStart (name ++ c :: cs) = name ++ c :: cs := by
    refine trimStart_eq_self fun d hd => isSpace_of_head? htrim ?_
    rwa [List.head?_append_of_ne_nil _ hne] at hd
  rw [trim, hstart, trimEnd_append_cons hc]

theorem moduleName_of_refers {kind : ReferenceKind} {value : List Char}
    (h : Refers kind name value) : kind.moduleName value = name := by
  have hassembly (value : List Char) : ReferenceKind.assembly.moduleName value
      = trim ((trim value).takeWhile (· != ',')) := rfl
  have hproject (value : List Char) : ReferenceKind.project.moduleName value
      = ((cutLast? (· == '.') (((cutLast? isSlash (trim value)).map (·.2)).getD (trim value))).map
          (·.1)).getD (((cutLast? isSlash (trim value)).map (·.2)).getD (trim value)) := rfl
  cases h with
  | package => exact htrim
  | assembly hname =>
    have hcomma : ∀ c ∈ name, (c != ',') = true := fun c hc => by
      simpa using ne_of_mem_of_not_mem hc hname
    rw [hassembly, htrim, List.takeWhile_eq_self_iff.2 hcomma, htrim]
  | detailed hname details =>
    have hcomma : ∀ c ∈ name, (c != ',') = true := fun c hc => by
      simpa using ne_of_mem_of_not_mem hc hname
    rw [hassembly, trim_name_append hne htrim (by decide), List.takeWhile_append_of_pos hcomma,
      List.takeWhile_cons_of_neg (by decide), List.append_nil, htrim]
  | file hname hext hdot =>
    obtain ⟨hslash, hcut⟩ := cutLast?_file hname hext hdot
    rw [hproject, trim_name_append hne htrim (by decide), cutLast?_eq_none hslash, Option.map_none,
      Option.getD_none, hcut, Option.map_some, Option.getD_some]
  | @path _ ext hname hext hdot folders mark hmark =>
    obtain ⟨hslash, hcut⟩ := cutLast?_file hname hext hdot
    have hmark' : isSpace mark = false := by
      rw [isSlash, Bool.or_eq_true, beq_iff_eq, beq_iff_eq] at hmark
      rcases hmark with rfl | rfl <;> decide
    have hvalue : trim (folders ++ mark :: (name ++ '.' :: ext))
        = trimStart folders ++ mark :: (name ++ '.' :: trimEnd ext) := by
      rw [trim, trimStart_append_cons hmark', trimEnd_append_cons hmark',
        trimEnd_append_cons (by decide)]
    rw [hproject, hvalue, cutLast?_eq_some hslash hmark, Option.map_some, Option.getD_some, hcut,
      Option.map_some, Option.getD_some]

end Name

/-! ## Elements -/

/-- An element that refers to a module. Around its `Include` attribute stand other attributes: in
front of it no end of the element and no other attribute of the name, behind it no other element. -/
structure ReferenceElement where
  kind : ReferenceKind
  name : List Char
  value : List Char
  before : List Char
  beforeEquals : List Char
  afterEquals : List Char
  behind : List Char
  name_ne : name ≠ []
  name_trim : trim name = name
  value_refers : Refers kind name value
  value_mark : '"' ∉ value
  before_opens : before.head?.any isSpace = true
  before_closes : before.getLast?.any isSpace = true
  before_end : '>' ∉ before
  before_word : holdsWord "Include".toList 'e' before = false
  beforeEquals_space : ∀ c ∈ beforeEquals, isSpace c = true
  afterEquals_space : ∀ c ∈ afterEquals, isSpace c = true
  behind_start : '<' ∉ behind

namespace ReferenceElement

variable (e : ReferenceElement)

def text : List Char :=
  opening e.kind ++ (e.before ++ ("Include".toList ++ (e.beforeEquals ++ '=' :: (e.afterEquals
    ++ '"' :: (e.value ++ '"' :: (e.behind ++ ['>']))))))

theorem head?_before (cs : List Char) : ((e.before ++ cs).head?.map isWord).getD false = false := by
  have hopens := e.before_opens
  cases hbefore : e.before with
  | nil =>
    rw [hbefore] at hopens
    cases hopens
  | cons c before =>
    rw [hbefore, List.head?_cons, Option.any_some] at hopens
    rw [List.cons_append, List.head?_cons, Option.map_some, Option.getD_some, Bool.eq_false_iff]
    intro hword
    rw [isSpace_of_isWord hword] at hopens
    cases hopens

theorem getLastD_before : isSpace (e.before.getLastD 'e') = true := by
  have hcloses := e.before_closes
  rw [List.getLastD_eq_getLast?]
  cases hlast : e.before.getLast? with
  | none =>
    rw [hlast] at hcloses
    cases hcloses
  | some c =>
    rw [hlast] at hcloses
    exact hcloses

/-- A search that starts at an element ends at its value. -/
theorem reference?_text (rest : List Char) :
    reference? (e.text ++ rest) = some (e.name, e.behind ++ '>' :: rest) := by
  have htext : e.text ++ rest = opening e.kind ++ (e.before ++ ("Include".toList ++ (e.beforeEquals
      ++ '=' :: (e.afterEquals ++ '"' :: (e.value ++ '"' :: (e.behind ++ '>' :: rest)))))) := by
    simp only [text, List.append_assoc, List.cons_append, List.nil_append]
  have hhere := includeHere?_value e.beforeEquals_space e.afterEquals_space
    (e.value_refers.value_ne e.name_ne) e.value_mark (e.behind ++ '>' :: rest)
  have hvalue := includeValue?_append hhere e.getLastD_before e.before_word e.before_end
  rw [htext, reference?_opening, hvalue, e.head?_before, if_neg Bool.false_ne_true,
    Option.map_some]
  dsimp only
  rw [moduleName_of_refers e.name_ne e.name_trim e.value_refers]

end ReferenceElement

/-- What stands behind a value and behind its element opens no reference, if the latter opens
none. -/
theorem noOpening_append {cs gap : List Char} (hcs : '<' ∉ cs) (hgap : NoOpening gap) :
    NoOpening (cs ++ gap) := by
  induction cs with
  | nil => exact hgap
  | cons c cs ih =>
    rw [List.mem_cons, not_or] at hcs
    intro kind hinside
    rcases List.infix_cons_iff.1 hinside with ⟨tail, htail⟩ | hinside
    · exact hcs.1 (List.cons.inj htail).1
    · exact ih hcs.2 kind hinside

/-- References with other text in front of them and behind each. -/
def written (lead : List Char) : List (ReferenceElement × List Char) → List Char
  | [] => lead
  | (e, gap) :: rows => lead ++ (e.text ++ written gap rows)

theorem references_written : ∀ {lead : List Char} {rows : List (ReferenceElement × List Char)},
    NoOpening lead → (∀ row ∈ rows, NoOpening row.2) →
      references (written lead rows) = rows.map (·.1.name)
  | lead, [], hlead, _ => by
    have hempty : references (lead ++ []) = references [] :=
      references_append_of_noOpening hlead (by simp)
    rwa [List.append_nil, references] at hempty
  | lead, (e, gap) :: rows, hlead, hrows => by
    rw [List.forall_mem_cons] at hrows
    have hstart : ∀ c, (e.text ++ written gap rows).head? = some c → c = '<' := by
      rintro c ⟨⟩
      rfl
    have hbehind : '<' ∉ e.behind ++ ['>'] := by
      simpa using e.behind_start
    have hrest : e.behind ++ '>' :: written gap rows
        = written ((e.behind ++ ['>']) ++ gap) rows := by
      cases rows <;> simp [written]
    rw [written, references_append_of_noOpening hlead hstart,
      references_of_some (e.reference?_text _), hrest,
      references_written (noOpening_append hbehind hrows.1) hrows.2, List.map_cons]

/-- The names of all references that are written are the modules that are read, in order. -/
theorem modules_written {lead : List Char} {rows : List (ReferenceElement × List Char)}
    (hlead : NoOpening lead) (hrows : ∀ row ∈ rows, NoOpening row.2) :
    (read (.ofList (written lead rows))).modules = rows.map fun row => .ofList row.1.name := by
  have hnames : (rows.map (·.1.name)).filter (!·.isEmpty) = rows.map (·.1.name) := by
    refine List.filter_eq_self.2 fun name hname => ?_
    obtain ⟨row, -, rfl⟩ := List.mem_map.1 hname
    simpa using row.1.name_ne
  rw [read]
  dsimp only
  rw [String.toList_ofList, references_written hlead hrows, hnames, List.map_map]
  rfl

/-- A package on several lines, with other attributes around the one that names it. -/
def workerElement : ReferenceElement where
  kind := .package
  name := "Functions.Worker".toList
  value := "Functions.Worker".toList
  before := "\n    IncludeAssets=\"all\" Version=\"1.21.0\"\n    ".toList
  beforeEquals := "\n      ".toList
  afterEquals := []
  behind := " Condition='$(Old)'".toList
  name_ne := by decide
  name_trim := by decide
  value_refers := .package _
  value_mark := by decide
  before_opens := by decide
  before_closes := by decide
  before_end := by decide
  before_word := by decide
  beforeEquals_space := List.all_eq_true.1 (by decide)
  afterEquals_space := List.forall_mem_nil _
  behind_start := by decide

def legacyElement : ReferenceElement where
  kind := .assembly
  name := "Legacy".toList
  value := "Legacy, Version=1.0".toList
  before := " ".toList
  beforeEquals := []
  afterEquals := []
  behind := "/".toList
  name_ne := by decide
  name_trim := by decide
  value_refers := @Refers.detailed "Legacy".toList (by decide) " Version=1.0".toList
  value_mark := by decide
  before_opens := by decide
  before_closes := by decide
  before_end := by decide
  before_word := by decide
  beforeEquals_space := List.forall_mem_nil _
  afterEquals_space := List.forall_mem_nil _
  behind_start := by decide

def sharedElement : ReferenceElement where
  kind := .project
  name := "Shared.Models".toList
  value := "..\\Shared/Shared.Models.csproj".toList
  before := " ".toList
  beforeEquals := []
  afterEquals := []
  behind := " /".toList
  name_ne := by decide
  name_trim := by decide
  value_refers := @Refers.path "Shared.Models".toList "csproj".toList (by decide) (by decide)
    (by decide) "..\\Shared".toList '/' rfl
  value_mark := by decide
  before_opens := by decide
  before_closes := by decide
  before_end := by decide
  before_word := by decide
  beforeEquals_space := List.forall_mem_nil _
  afterEquals_space := List.forall_mem_nil _
  behind_start := by decide

def exampleRows : List (ReferenceElement × List Char) :=
  [(workerElement, "<Aliases>W</Aliases></PackageReference>\n".toList), (legacyElement, []),
    (sharedElement, "\n  </ItemGroup>\n</Project>\n".toList)]

theorem modules_written_example :
    (NoOpening "<Project>\n  <ItemGroup>\n".toList ∧ ∀ row ∈ exampleRows, NoOpening row.2) ∧
    (read (.ofList (written "<Project>\n  <ItemGroup>\n".toList exampleRows))).modules
      = ["Functions.Worker", "Legacy", "Shared.Models"] := by
  have hlead : NoOpening "<Project>\n  <ItemGroup>\n".toList := by decide
  have hrows : ∀ row ∈ exampleRows, NoOpening row.2 := by decide
  exact ⟨⟨hlead, hrows⟩, modules_written hlead hrows⟩

end Project

end TaskWrappers
