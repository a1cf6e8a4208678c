import TaskWrappers.Declaration.OfTree
import TaskWrappers.Proofs.Placed
import TaskWrappers.Proofs.Resolution.Alias

/-!
# How far a directive reaches

A directive counts for the whole file it is written in, whatever namespace it stands in: of two
aliases for one name the first in the file is in force in every block. Outside its file only a
global directive counts. So a file in which other directives for it alone are written
(`Redirection`) declares the same (`Source.typesOf_bare`) and gives the other files the same types
to see; and as long as its own constants keep their values, all else does too. The blocks that
the directives stand in are of no account, only their order is (`Redirection.directives_reach`).
-/

namespace TaskWrappers

namespace Source

def Application.unplaced (a : Application) : Application := { a with extent := ⟨.zero, .zero⟩ }

def ParameterForm.unplaced (p : ParameterForm) : ParameterForm :=
  { p with attributes := p.attributes.map .unplaced }

def MethodForm.unplaced (m : MethodForm) : MethodForm :=
  { m with
    parameters := m.parameters.map .unplaced, attributes := m.attributes.map .unplaced
    extent := ⟨.zero, .zero⟩ }

def TypeForm.unplaced (t : TypeForm) : TypeForm :=
  { t with attributes := t.attributes.map .unplaced, extent := ⟨.zero, .zero⟩ }

/-- Whether the text of a directive puts it in force in all files. -/
def isGlobalText (text : String) : Bool := (Using.ofText? text).any (·.isGlobal)

/-- Items without the directives for their own file alone, and without their places. -/
def bare : List Item → List Item
  | [] => []
  | .usingLine text :: is => (if isGlobalText text then [.usingLine text] else []) ++ bare is
  | .spaceBlock name body :: is => .spaceBlock name (bare body) :: bare is
  | .spaceLine name :: is => .spaceLine name :: bare is
  | .conditional body :: is => .conditional (bare body) :: bare is
  | .type form members :: is => .type form.unplaced (bare members) :: bare is
  | .method form :: is => .method form.unplaced :: bare is
  | .field form :: is => .field form :: bare is
  | .other :: is => .other :: bare is

variable (file : String)

theorem Application.map_unplaced (as : List Application) :
    ((as.map .unplaced).map (Application.toAttribute file)).map Attribute.unplaced
      = (as.map (Application.toAttribute file)).map Attribute.unplaced := by
  simp only [List.map_map]
  rfl

theorem ParameterForm.unplaced_toParameter (p : ParameterForm) :
    (p.unplaced.toParameter file).unplaced = (p.toParameter file).unplaced := by
  simp only [toParameter, Parameter.unplaced, unplaced, Application.map_unplaced]

theorem MethodForm.unplaced_toMethod (m : MethodForm) :
    (m.unplaced.toMethod file).unplaced = (m.toMethod file).unplaced := by
  have hparameters : ((m.parameters.map .unplaced).map (ParameterForm.toParameter file)).map
      Parameter.unplaced = (m.parameters.map (ParameterForm.toParameter file)).map .unplaced := by
    simp only [List.map_map]
    exact List.map_congr_left fun p _ => p.unplaced_toParameter file
  simp only [toMethod, Method.unplaced, unplaced, Application.map_unplaced, hparameters]

theorem methodsOf_bare (items : List Item) :
    (methodsOf file (bare items)).map Method.unplaced
      = (methodsOf file items).map Method.unplaced := by
  induction items using bare.induct with
  | case7 form is ih =>
    rw [bare, methodsOf, methodsOf, List.map_cons, List.map_cons, form.unplaced_toMethod, ih]
  | case5 body is ihbody ih =>
    rw [bare, methodsOf, methodsOf, List.map_append, List.map_append, ihbody, ih]
  | case2 text is ih =>
    rw [bare]
    split <;> simp only [List.cons_append, List.nil_append, methodsOf, ih]
  | _ => simp only [bare, methodsOf, *]

theorem constantsOf_bare (items : List Item) : constantsOf (bare items) = constantsOf items := by
  induction items using bare.induct with
  | case5 body is ihbody ih => rw [bare, constantsOf, constantsOf, ihbody, ih]
  | case2 text is ih =>
    rw [bare]
    split <;> simp only [List.cons_append, List.nil_append, constantsOf, ih]
  | _ => simp only [bare, constantsOf, *]

theorem TypeForm.unplaced_toDecl (form : TypeForm) (space : Option String)
    (containers : List String) (members : List Item) :
    (form.unplaced.toDecl file space containers (bare members)).unplaced
      = (form.toDecl file space containers members).unplaced := by
  simp only [toDecl, TypeDecl.unplaced, unplaced, Application.map_unplaced, methodsOf_bare,
    constantsOf_bare]

theorem nestedTypes_bare (space : Option String) (containers : List String) (items : List Item) :
    (nestedTypes file space containers (bare items)).map TypeDecl.unplaced
      = (nestedTypes file space containers items).map TypeDecl.unplaced := by
  induction items using bare.induct generalizing containers with
  | case6 form members is ihmembers ih =>
    rw [bare, nestedTypes, nestedTypes, List.map_cons, List.map_cons, List.map_append,
      List.map_append, form.unplaced_toDecl, ihmembers, ih]
    rfl
  | case5 body is ihbody ih =>
    rw [bare, nestedTypes, nestedTypes, List.map_append, List.map_append, ihbody, ih]
  | case2 text is ih =>
    rw [bare]
    split <;> simp only [List.cons_append, List.nil_append, nestedTypes, ih]
  | _ => simp only [bare, nestedTypes, *]

/-- Of directives the declarations of a file know nothing. -/
theorem typesOf_bare (space : Option String) (items : List Item) :
    (typesOf file space (bare items)).map TypeDecl.unplaced
      = (typesOf file space items).map TypeDecl.unplaced := by
  induction items using bare.induct generalizing space with
  | case6 form members is ihmembers ih =>
    rw [bare, typesOf, typesOf, List.map_cons, List.map_cons, List.map_append, List.map_append,
      form.unplaced_toDecl, nestedTypes_bare, ih]
    rfl
  | case3 name body is ihbody ih =>
    rw [bare, typesOf, typesOf, List.map_append, List.map_append, ih]
    split
    · rw [ihbody]
    · rfl
  | case5 body is ihbody ih =>
    rw [bare, typesOf, typesOf, List.map_append, List.map_append, ihbody, ih]
  | case2 text is ih =>
    rw [bare]
    split <;> simp only [List.cons_append, List.nil_append, typesOf, ih]
  | _ => simp only [bare, typesOf, *]

theorem globals_bare (items : List Item) :
    (usingsOf (bare items)).filter (·.isGlobal) = (usingsOf items).filter (·.isGlobal) := by
  induction items using bare.induct with
  | case2 text is ih =>
    rw [bare, usingsOf, List.filter_append, ← ih]
    split
    · rw [List.cons_append, List.nil_append, usingsOf, List.filter_append]
    · rename_i hlocal
      have hnone : (Using.ofText? text).toList.filter (·.isGlobal) = [] := by
        refine List.filter_eq_nil_iff.2 fun u hu hglobal => hlocal ?_
        exact (Option.any_eq_true _ _).2 ⟨u, Option.mem_toList.1 hu, hglobal⟩
      rw [hnone, List.nil_append, List.nil_append]
  | case3 name body is ihbody ih =>
    rw [bare, usingsOf, usingsOf, List.filter_append, List.filter_append, ih]
    split
    · rw [ihbody]
    · rfl
  | case5 body is ihbody ih =>
    rw [bare, usingsOf, usingsOf, List.filter_append, List.filter_append, ihbody, ih]
  | _ => simp only [bare, usingsOf, *]

theorem usingsOf_append (items more : List Item) :
    usingsOf (items ++ more) = usingsOf items ++ usingsOf more := by
  induction items with
  | nil => rw [List.nil_append, usingsOf, List.nil_append]
  | cons item items ih =>
    rw [List.cons_append]
    cases item <;> simp only [usingsOf, ih, List.append_assoc]

end Source

/-- Where a function leaves what is looked for as it is, the list with some of its entries mapped
has the same first match, or the image of one of them. -/
theorem find?_map_within {α : Type} {f : α → α} {p : α → Bool} (hp : ∀ a, p (f a) = p a)
    (outer own inner : List α) :
    (outer ++ (own.map f ++ inner)).find? p = (outer ++ (own ++ inner)).find? p ∨
      ∃ a ∈ own, (outer ++ (own ++ inner)).find? p = some a ∧
        (outer ++ (own.map f ++ inner)).find? p = some (f a) := by
  have hcomp : p ∘ f = p := funext hp
  simp only [List.find?_append, List.find?_map, hcomp]
  cases outer.find? p with
  | some a => exact .inl rfl
  | none =>
    cases h : own.find? p with
    | some a => exact .inr ⟨a, List.mem_of_find?_eq_some h, rfl, rfl⟩
    | none => exact .inl rfl

/-- The constant with the directives of its file changed. -/
def KnownConstant.under (usings : List Using) (c : KnownConstant) : KnownConstant :=
  { c with scope := { c.scope with usings := usings } }

/-- A file among others before and after a change of the directives for it alone. -/
structure Redirection where
  before : List SourceFile
  after : List SourceFile
  path : String
  tree : Source.Tree
  tree' : Source.Tree
  bare_eq : Source.bare tree.items = Source.bare tree'.items
  implicitSpaces : List String

namespace Redirection

open Source

variable (r : Redirection)

def file : SourceFile := .ofTree r.path r.tree

def file' : SourceFile := .ofTree r.path r.tree'

def files : List SourceFile := r.before ++ r.file :: r.after

def files' : List SourceFile := r.before ++ r.file' :: r.after

def model : Model := .build r.files r.implicitSpaces

def model' : Model := .build r.files' r.implicitSpaces

/-- The constants of the file have the same values, as deep as references are followed. -/
def KeepsConstants : Prop :=
  ∀ d ∈ r.file.types, ∀ c ∈ d.constants, ∀ n ≤ ConstantExpr.maxDepth,
    ConstantExpr.valueWithin r.model n (.inside r.file d) c.value
      = ConstantExpr.valueWithin r.model' n (.inside r.file' d) c.value

theorem types_unplaced :
    r.file.types.map TypeDecl.unplaced = r.file'.types.map TypeDecl.unplaced := by
  change (typesOf r.path none r.tree.items).map TypeDecl.unplaced
    = (typesOf r.path none r.tree'.items).map TypeDecl.unplaced
  rw [← typesOf_bare, r.bare_eq, typesOf_bare]

theorem globals_file :
    r.file.usings.filter (·.isGlobal) = r.file'.usings.filter (·.isGlobal) := by
  change (usingsOf r.tree.items).filter (·.isGlobal) = (usingsOf r.tree'.items).filter (·.isGlobal)
  rw [← globals_bare, r.bare_eq, globals_bare]

/-- What is the same of the file is the same of all files. -/
theorem flatMap_files {α : Type} {g : SourceFile → List α} (h : g r.file = g r.file') :
    r.files.flatMap g = r.files'.flatMap g := by
  rw [files, files', List.flatMap_append, List.flatMap_append, List.flatMap_cons,
    List.flatMap_cons, h]

theorem sameTypes : r.model.SameTypes r.model' := by
  refine Model.sameTypes_of_known _ ?_ (r.flatMap_files r.globals_file)
  rw [Placed.map_known_ofFiles, Placed.map_known_ofFiles]
  refine r.flatMap_files ?_
  have hfile := congrArg (List.map KnownType.ofDecl) r.types_unplaced
  rwa [List.map_map, List.map_map] at hfile

theorem constants_file' : r.file'.types.flatMap (KnownConstant.ofDecl r.file')
    = (r.file.types.flatMap (KnownConstant.ofDecl r.file)).map (.under r.file'.usings) := by
  have hplaced := congrArg (List.flatMap (KnownConstant.ofDecl r.file')) r.types_unplaced
  rw [List.flatMap_map, List.flatMap_map] at hplaced
  have hunder (d : TypeDecl) :
      (KnownConstant.ofDecl r.file d).map (.under r.file'.usings)
        = KnownConstant.ofDecl r.file' d := by
    rw [KnownConstant.ofDecl, List.map_map]
    rfl
  rw [List.map_flatMap, funext hunder]
  exact hplaced.symm

/-- Constants with literal values keep them. -/
theorem keepsConstants_of_literal
    (h : ∀ d ∈ r.file.types, ∀ c ∈ d.constants,
      ∃ value, ConstantToken.scan c.value.toList = some [.text value]) : r.KeepsConstants := by
  intro d hd c hc n _
  obtain ⟨value, hscan⟩ := h d hd c hc
  have hvalue (lookup : ConstantExpr.Lookup) :
      ConstantExpr.value? lookup c.value = some (.ofList value) := by
    rw [ConstantExpr.value?, hscan]
    rfl
  cases n with
  | zero => rfl
  | succ n => rw [ConstantExpr.valueWithin, ConstantExpr.valueWithin, hvalue, hvalue]

/-- A name finds the same constant, but for the file's own, which it finds under the other
directives. -/
theorem constant?_eq (fullName : String) :
    r.model'.constant? fullName = r.model.constant? fullName ∨
      ∃ c ∈ r.file.types.flatMap (KnownConstant.ofDecl r.file),
        r.model.constant? fullName = some c ∧
          r.model'.constant? fullName = some (c.under r.file'.usings) := by
  have hconstants (f : SourceFile) :
      ((r.before ++ f :: r.after).flatMap fun f => f.types.flatMap (KnownConstant.ofDecl f)).reverse
        = (r.after.flatMap fun f => f.types.flatMap (KnownConstant.ofDecl f)).reverse
          ++ ((f.types.flatMap (KnownConstant.ofDecl f)).reverse
            ++ (r.before.flatMap fun f => f.types.flatMap (KnownConstant.ofDecl f)).reverse) := by
    rw [List.flatMap_append, List.flatMap_cons, List.reverse_append, List.reverse_append,
      List.append_assoc]
  rw [Model.constant?, Model.constant?, model, model', Model.build, Model.build, files, files',
    hconstants, hconstants, r.constants_file', ← List.map_reverse]
  rcases find?_map_within (f := KnownConstant.under r.file'.usings) (p := (·.fullName == fullName))
    (fun _ => rfl) _ _ _ with heq | ⟨c, hc, hfound, hfound'⟩
  · exact .inl heq
  · exact .inr ⟨c, List.mem_reverse.1 hc, hfound, hfound'⟩

theorem sameConstants (h : r.KeepsConstants) : r.model.SameConstants r.model' := by
  intro fullName
  rcases r.constant?_eq fullName with heq | ⟨c, hc, hfound, hfound'⟩
  · rw [heq]
    cases r.model.constant? fullName with
    | none => exact .none
    | some c => exact .some (.inl rfl)
  · rw [hfound, hfound']
    refine .some (.inr fun n hn => ?_)
    obtain ⟨d, hd, hc⟩ := List.mem_flatMap.1 hc
    obtain ⟨declared, hdeclared, rfl⟩ := List.mem_map.1 hc
    exact h d hd declared hdeclared n hn

/-- With the same directives in the same order, in whatever blocks, all candidates are as before. -/
theorem placed_eq (h : usingsOf r.tree.items = usingsOf r.tree'.items) :
    (Placed.ofFiles r.files).map Placed.unplaced = (Placed.ofFiles r.files').map .unplaced := by
  rw [Placed.ofFiles, Placed.ofFiles, List.map_flatMap, List.map_flatMap]
  refine r.flatMap_files ?_
  have husings : r.file.usings = r.file'.usings := h
  have hplaced := congrArg (List.map (Placed.mk r.file.usings)) r.types_unplaced
  rw [List.map_map, List.map_map] at hplaced
  rw [List.map_map, List.map_map, ← husings]
  exact hplaced

/-- A name that a block gives to something, and nothing before the block, means that in all the
file. -/
theorem aliasTarget?_block {items rest body : List Item} {space name target : String}
    (hitems : r.tree.items = items ++ .spaceBlock space body :: rest)
    (hspace : isNamed space = true)
    (hbefore : Using.aliasTarget? (usingsOf items) name = none)
    (hbody : Using.aliasTarget? (usingsOf body) name = some target) (d : TypeDecl) :
    r.model.aliasTarget? (.inside r.file d) name = some target := by
  have husings : r.file.usings = usingsOf items ++ (usingsOf body ++ usingsOf rest) := by
    change usingsOf r.tree.items = _
    rw [hitems, usingsOf_append, usingsOf, if_pos hspace]
  rw [Using.aliasTarget?, Option.map_eq_none_iff] at hbefore
  rw [Using.aliasTarget?, Option.map_eq_some_iff] at hbody
  obtain ⟨u, hu, rfl⟩ := hbody
  rw [Model.aliasTarget?, Scope.inside, husings, Using.aliasTarget?, List.find?_append, hbefore,
    List.find?_append, hu]
  rfl

/-- How far directives for one file alone reach: types are resolved as before in every scope; where
the file's constants keep their values, all constant expressions have the same value in every scope
and all candidates, whose files may be any, the same description; what blocks the directives stand
in changes no outcome; and of two blocks that give one name to something the first has it, for the
declarations of all blocks. -/
theorem directives_reach :
    (∀ s type, r.model.resolve s type = r.model'.resolve s type) ∧
    (r.KeepsConstants →
      (∀ s expression, r.model.constantValue s expression = r.model'.constantValue s expression) ∧
      ∀ c : Candidate, c.describe r.model = c.describe r.model') ∧
    (usingsOf r.tree.items = usingsOf r.tree'.items → ∀ modules,
      (Outcome.run r.model modules (Candidate.scan r.files)).SameButPlaces
        (Outcome.run r.model' modules (Candidate.scan r.files'))) ∧
    ∀ items space body rest name target,
      r.tree.items = items ++ .spaceBlock space body :: rest → isNamed space = true →
      Using.aliasTarget? (usingsOf items) name = none →
      Using.aliasTarget? (usingsOf body) name = some target →
      ∀ d ∈ r.file.types,
        r.model.resolveAlias (.inside r.file d) name = r.model.resolveText .global target := by
  refine ⟨fun s type => r.sameTypes.resolve_eq type, fun hconstants => ?_,
    fun husings modules => ?_,
    fun items space body rest name target hitems hspace hbefore hbody d _ => ?_⟩
  · have hsame := r.sameTypes.same (r.sameConstants hconstants)
    exact ⟨hsame.constantValue, hsame.describe_eq⟩
  · exact Outcome.run_of_placed (r.placed_eq husings) (r.flatMap_files r.globals_file) modules
  · exact Model.resolveAlias_target (r.aliasTarget?_block hitems hspace hbefore hbody d)

/-- A block with a directive or none and with an activity that has a constant. -/
def block (space name : String) (line : Option String) (constant : String) : Item :=
  .spaceBlock space (line.toList.map .usingLine ++
    [.type ⟨name, .class, 0, [], [], ["TaskActivity<Id, string>"], ⟨.zero, .zero⟩⟩
      [.field ⟨"string", [constant], ["const"]⟩]])

def blocks (kind : String) (first second : Option String) : Tree :=
  ⟨[block "First" "A" first kind, block "Second" "B" second "Word = \"Post\""], none⟩

def activity (space name : String) (constants : List Constant) : TypeDecl :=
  ⟨name, .class, some space, [], 0, [], [], ["TaskActivity<Id, string>"], [], constants,
    ⟨"Blocks.cs", .zero, .zero⟩⟩

def classB : TypeDecl := activity "Second" "B" [⟨"Word", "string", "\"Post\""⟩]

def blocksFile (kind : String) (first second : Option String) : SourceFile where
  path := "Blocks.cs"
  usings := (first.bind Using.ofText?).toList ++ (second.bind Using.ofText?).toList
  types := [activity "First" "A" (Constant.ofDeclarator? "string" kind).toList, classB]
  damage := none

theorem ofTree_blocks (kind : String) (first second : Option String) :
    SourceFile.ofTree "Blocks.cs" (blocks kind first second) = blocksFile kind first second := by
  have hconstant (text : String) : FieldForm.constants ⟨"string", [text], ["const"]⟩
      = (Constant.ofDeclarator? "string" text).toList := by
    cases h : Constant.ofDeclarator? "string" text <;> simp [FieldForm.constants, h]
  have hword : Constant.ofDeclarator? "string" "Word = \"Post\""
      = some ⟨"Word", "string", "\"Post\""⟩ := by decide
  have hbase : baseName? "TaskActivity<Id, string>" = some "TaskActivity<Id, string>" := by
    decide
  have hspaces : openedSpace none "First" = some "First" ∧ openedSpace none "Second" = some "Second"
      ∧ isNamed "First" = true ∧ isNamed "Second" = true := by
    decide
  cases first <;> cases second <;>
    simp [SourceFile.ofTree, blocks, blocksFile, block, usingsOf, typesOf, nestedTypes,
      TypeForm.toDecl, methodsOf, constantsOf, hconstant, hword, hbase, hspaces, activity, classB,
      Extent.toSpan]

theorem bare_blocks {kind : String} {first second : Option String}
    (hlocal : ∀ text ∈ first.toList ++ second.toList, isGlobalText text = false) :
    bare (blocks kind first second).items = bare (blocks kind none none).items := by
  cases first <;> cases second <;> simp_all [blocks, block, bare]

/-- A file with an activity that a constant of another file names. -/
def mailFile : SourceFile where
  path := "Mail.cs"
  usings := [⟨.space, "System", false⟩]
  types := [⟨"Mail", .class, some "App", [], 0, [],
    [⟨"DurableTask", [⟨none, "First.A.Kind"⟩], default⟩], ["TaskActivity<Guid, string>"], [], [],
    default⟩]
  damage := none

/-- The directives of the two blocks are changed. -/
def change (kind : String) (first second first' second' : Option String)
    (hlocal : ∀ text ∈ first.toList ++ second.toList, isGlobalText text = false)
    (hlocal' : ∀ text ∈ first'.toList ++ second'.toList, isGlobalText text = false) :
    Redirection where
  before := []
  after := [mailFile]
  path := "Blocks.cs"
  tree := blocks kind first second
  tree' := blocks kind first' second'
  bare_eq := (bare_blocks hlocal).trans (bare_blocks hlocal').symm
  implicitSpaces := []

def guidLine : String := "using Id = System.Guid;"

def dateLine : String := "using Id = System.DateTime;"

/-- The directive of the first block is taken out. -/
def shortened : Redirection :=
  change "Kind = \"Send\"" (some guidLine) (some dateLine) none (some dateLine)
    (by decide) (by decide)

/-- The directive of the first block is put into the second. -/
def moved : Redirection :=
  change "Kind = \"Send\"" (some guidLine) none none (some guidLine) (by decide) (by decide)

/-- The directive that a constant is read with is taken out. -/
def unbound : Redirection :=
  change "Kind = Other.Word" (some "using Other = Second.B;") none none none
    (by decide) (by decide)

theorem file_shortened :
    shortened.file = blocksFile "Kind = \"Send\"" (some guidLine) (some dateLine) :=
  ofTree_blocks _ _ _

theorem file'_shortened :
    shortened.file' = blocksFile "Kind = \"Send\"" none (some dateLine) :=
  ofTree_blocks _ _ _

theorem keepsConstants_shortened : shortened.KeepsConstants := by
  refine shortened.keepsConstants_of_literal fun d hd c hc => ?_
  rw [file_shortened] at hd
  rcases List.mem_cons.1 hd with rfl | hd
  · have hkind : (Constant.ofDeclarator? "string" "Kind = \"Send\"").toList
        = [⟨"Kind", "string", "\"Send\""⟩] := by decide
    rw [activity, hkind, List.mem_singleton] at hc
    rw [hc]
    exact ⟨"Send".toList, by decide +kernel⟩
  · rw [List.mem_singleton.1 hd, classB, activity, List.mem_singleton] at hc
    rw [hc]
    exact ⟨"Post".toList, by decide +kernel⟩

theorem directives_reach_shortened :
    shortened.KeepsConstants ∧
    (∀ c ∈ Candidate.scan [mailFile], c.describe shortened.model = c.describe shortened.model') ∧
    shortened.model'.constantValue .global "First.A.Kind" = some "Send" ∧
    (Outcome.run moved.model [] (Candidate.scan moved.files)).SameButPlaces
      (Outcome.run moved.model' [] (Candidate.scan moved.files')) ∧
    shortened.model.resolveAlias (.inside shortened.file classB) "Id"
      = some ⟨"System.Guid", some "System", false, false⟩ := by
  obtain ⟨-, hconstants, -, halias⟩ := directives_reach shortened
  obtain ⟨-, -, hmoved, -⟩ := directives_reach moved
  obtain ⟨hvalue, hdescribe⟩ := hconstants keepsConstants_shortened
  have hkind : shortened.model.constantValue .global "First.A.Kind" = some "Send" := by
    rw [model, files, file_shortened]
    decide +kernel
  have hguid : shortened.model.resolveText .global "System.Guid"
      = some ⟨"System.Guid", some "System", false, false⟩ := by
    rw [model, files, file_shortened]
    decide +kernel
  have hown : classB ∈ shortened.file.types := by
    rw [file_shortened]
    exact List.mem_cons_of_mem _ List.mem_cons_self
  have hline : Using.ofText? guidLine = some ⟨.aliased "Id", "System.Guid", false⟩ := by
    decide
  have hfirst : isNamed "First" = true := by decide
  have hsecond : isNamed "Second" = true := by decide
  refine ⟨keepsConstants_shortened, fun c _ => hdescribe c, hvalue _ _ ▸ hkind, hmoved ?_ [], ?_⟩
  · simp [moved, change, blocks, block, usingsOf, hfirst, hsecond]
  · rw [halias [] "First" _ _ "Id" "System.Guid" rfl hfirst ?_ ?_ _ hown, hguid]
    · simp [usingsOf, Using.aliasTarget?]
    · simp [usingsOf, hline, Using.aliasTarget?, Using.isAlias]

/-- A directive of the first block says what a name means in the second, which has one of its own
for it, and names an activity of another file through a constant. -/
theorem directives_reach_other_block :
    (bare shortened.tree.items = bare shortened.tree'.items ∧
      shortened.file.types.map (fun d =>
          shortened.model.resolve (.inside shortened.file d) (.named none [] (.plain "Id")))
        = [some ⟨"System.Guid", some "System", false, false⟩,
          some ⟨"System.Guid", some "System", false, false⟩] ∧
      shortened.file'.types.map (fun d =>
          shortened.model'.resolve (.inside shortened.file' d) (.named none [] (.plain "Id")))
        = [some ⟨"System.DateTime", some "System", false, false⟩,
          some ⟨"System.DateTime", some "System", false, false⟩]) ∧
    bare unbound.tree.items = bare unbound.tree'.items ∧
    (Candidate.scan [mailFile]).map (fun c => (c.describe unbound.model).name) = ["Post"] ∧
    (Candidate.scan [mailFile]).map (fun c => (c.describe unbound.model').name) = ["Mail"] := by
  have hguid : (shortened.file.types.map fun d => shortened.model.resolveWithin 2
      (.inside shortened.file d) (.named none [] (.plain "Id")))
        = [some (some ⟨"System.Guid", some "System", false, false⟩),
          some (some ⟨"System.Guid", some "System", false, false⟩)] := by
    rw [model, files, file_shortened]
    decide +kernel
  have hdate : (shortened.file'.types.map fun d => shortened.model'.resolveWithin 2
      (.inside shortened.file' d) (.named none [] (.plain "Id")))
        = [some (some ⟨"System.DateTime", some "System", false, false⟩),
          some (some ⟨"System.DateTime", some "System", false, false⟩)] := by
    rw [model', files', file'_shortened]
    decide +kernel
  refine ⟨⟨shortened.bare_eq, ?_, ?_⟩, unbound.bare_eq, ?_, ?_⟩
  · rw [file_shortened] at hguid ⊢
    simp only [blocksFile, List.map_cons, List.map_nil, List.cons.injEq, and_true] at hguid ⊢
    exact ⟨(Model.resolveWithin_eq hguid.1).symm, (Model.resolveWithin_eq hguid.2).symm⟩
  · rw [file'_shortened] at hdate ⊢
    simp only [blocksFile, List.map_cons, List.map_nil, List.cons.injEq, and_true] at hdate ⊢
    exact ⟨(Model.resolveWithin_eq hdate.1).symm, (Model.resolveWithin_eq hdate.2).symm⟩
  · have hfile : unbound.file = _ := ofTree_blocks _ _ _
    rw [model, files, hfile]
    decide +kernel
  · have hfile : unbound.file' = _ := ofTree_blocks _ _ _
    rw [model', files', hfile]
    decide +kernel

end Redirection

end TaskWrappers
