import TaskWrappers.Outcome
import TaskWrappers.Proofs.Candidate
import TaskWrappers.Proofs.Nesting

/-!
# Task classes inside of generic types

What makes a class a task is all its own: its kind, its modifiers, its type parameters and its bases
(`Candidate.exists_task_mem_scan_iff`). So no class that is returned as a task has type parameters,
but a class in a generic type is returned like any other, though it cannot be made without arguments
for the type around it. All tasks of some files are closed types exactly if no class in the form of
a task stands inside of a generic type (`Candidate.closed_iff`).
-/

namespace TaskWrappers

open Source

/-- Whether a class or record is a task by itself: it can be made, and it has a task base. -/
structure Source.TypeForm.IsTask (form : TypeForm) : Prop where
  derivable : form.kind.isDerivable = true
  concrete : "abstract" ∉ form.modifiers
  notGeneric : form.arity = 0
  base : ∃ text ∈ form.bases, ∃ base, baseName? text = some base ∧ (taskBase? base).isSome = true

namespace Source

/-- Whether an item is a type with type parameters. -/
def Item.isGeneric : Item → Bool
  | .type form _ => 0 < form.arity
  | _ => false

/-- That a type of a file is declared inside of other items, the outermost of them first. -/
def DeclaredIn (path : String) (tree : Tree) (above : List Item) (form : TypeForm)
    (d : TypeDecl) : Prop :=
  ∃ a members, At tree.items a above (.type form members) ∧ IsOpen above ∧
    d = form.toDecl path (spaceAt none tree.items a) (above.filterMap Item.typeName?) members

theorem mem_types_iff {path : String} {tree : Tree} {d : TypeDecl} :
    d ∈ (SourceFile.ofTree path tree).types ↔ ∃ above form, DeclaredIn path tree above form d := by
  obtain ⟨rows, hdecls, hrows⟩ := exists_rows_typesOf path none tree.items
  rw [SourceFile.ofTree, ← hdecls, List.mem_map]
  constructor
  · rintro ⟨⟨a, d⟩, hrow, rfl⟩
    obtain ⟨above, form, members, h⟩ := (hrows.mem_iff a d).1 hrow
    exact ⟨above, form, a, members, h⟩
  · rintro ⟨above, form, a, members, h⟩
    exact ⟨(a, d), (hrows.mem_iff a d).2 ⟨above, form, members, h⟩, rfl⟩

end Source

namespace Candidate

/-- The files of some syntax trees. -/
def filesOf (sources : List (String × Tree)) : List SourceFile :=
  sources.map fun s => .ofTree s.1 s.2

/-- That a declaration of a file is returned as a task class. -/
def IsScanned (files : List SourceFile) (f : SourceFile) (d : TypeDecl) : Prop :=
  ∃ kind args, task kind f d args ∈ scan files

/-- Whether neither a type nor any type around it has type parameters. -/
def IsClosed (above : List Item) (form : TypeForm) : Prop :=
  form.arity = 0 ∧ ∀ x ∈ above, x.isGeneric = false

variable {sources : List (String × Tree)} {source : String × Tree} {above : List Item}
  {form : TypeForm} {d : TypeDecl}

theorem isScanned_iff_candidates {files : List SourceFile} {f : SourceFile} :
    IsScanned files f d ↔ (f ∈ files ∧ d ∈ f.types) ∧
      (d.kind.isDerivable = true ∧ d.modifiers.contains "abstract" = false ∧ d.arity = 0) ∧
        (d.bases.findSome? taskBase?).isSome = true := by
  constructor
  · rintro ⟨kind, args, h⟩
    obtain ⟨f', hf, d', hd, h⟩ := mem_scan_iff.1 h
    obtain ⟨⟨rfl, rfl⟩, hown, hbase⟩ := task_mem_candidates_iff.1 h
    exact ⟨⟨hf, hd⟩, hown, by rw [hbase]; rfl⟩
  · rintro ⟨⟨hf, hd⟩, hown, hbase⟩
    obtain ⟨⟨kind, args⟩, hbase⟩ := Option.isSome_iff_exists.1 hbase
    exact ⟨kind, args, mem_scan_iff.2
      ⟨f, hf, d, hd, task_mem_candidates_iff.2 ⟨⟨rfl, rfl⟩, hown, hbase⟩⟩⟩

/-- A class is a task by what it is itself; the types around it have no say. -/
theorem isScanned_iff (hsource : source ∈ sources)
    (hd : DeclaredIn source.1 source.2 above form d) :
    IsScanned (filesOf sources) (.ofTree source.1 source.2) d ↔ form.IsTask := by
  have hfile : SourceFile.ofTree source.1 source.2 ∈ filesOf sources :=
    List.mem_map_of_mem hsource
  have hmem : d ∈ (SourceFile.ofTree source.1 source.2).types := mem_types_iff.2 ⟨above, form, hd⟩
  obtain ⟨a, members, -, -, rfl⟩ := hd
  rw [isScanned_iff_candidates, and_iff_right ⟨hfile, hmem⟩]
  simp only [TypeForm.toDecl, List.findSome?_isSome_iff, List.mem_filterMap]
  constructor
  · rintro ⟨⟨hkind, habstract, harity⟩, base, ⟨text, htext, hname⟩, hbase⟩
    exact ⟨hkind, by simpa using habstract, harity, text, htext, base, hname, hbase⟩
  · rintro ⟨hkind, habstract, harity, text, htext, base, hname, hbase⟩
    exact ⟨⟨hkind, by simpa using habstract, harity⟩, base, ⟨text, htext, hname⟩, hbase⟩

/-- The classes that are returned as tasks are all those in the form of one, wherever they stand.
So each of them is a closed type exactly if none stands inside of a generic type. -/
theorem closed_iff (sources : List (String × Tree)) :
    (∀ f d, IsScanned (filesOf sources) f d ↔ ∃ source ∈ sources,
      f = .ofTree source.1 source.2 ∧
        ∃ above form, DeclaredIn source.1 source.2 above form d ∧ form.IsTask) ∧
    ((∀ source ∈ sources, ∀ above form d, DeclaredIn source.1 source.2 above form d →
        IsScanned (filesOf sources) (.ofTree source.1 source.2) d → IsClosed above form) ↔
      ∀ source ∈ sources, ∀ above form d, DeclaredIn source.1 source.2 above form d →
        form.IsTask → ∀ x ∈ above, x.isGeneric = false) := by
  refine ⟨fun f d => ⟨fun h => ?_, ?_⟩, ?_⟩
  · obtain ⟨⟨hf, hd⟩, -⟩ := isScanned_iff_candidates.1 h
    obtain ⟨source, hsource, rfl⟩ := List.mem_map.1 hf
    obtain ⟨above, form, hd⟩ := mem_types_iff.1 hd
    exact ⟨source, hsource, rfl, above, form, hd, (isScanned_iff hsource hd).1 h⟩
  · rintro ⟨source, hsource, rfl, above, form, hd, htask⟩
    exact (isScanned_iff hsource hd).2 htask
  · constructor
    · intro h source hsource above form d hd htask
      exact (h source hsource above form d hd ((isScanned_iff hsource hd).2 htask)).2
    · intro h source hsource above form d hd hscanned
      have htask := (isScanned_iff hsource hd).1 hscanned
      exact ⟨htask.notGeneric, h source hsource above form d hd htask⟩

def outerForm : TypeForm := ⟨"Outer", .class, 1, [], [], [], ⟨.zero, .zero⟩⟩

def innerForm : TypeForm :=
  ⟨"Inner", .class, 0, [], [], ["TaskActivity<int, string>"], ⟨.zero, .zero⟩⟩

/-- A task class in a generic one. -/
def outerTree : Tree := ⟨[.spaceBlock "App" [.type outerForm [.type innerForm []]]], none⟩

theorem ofTree_outerTree : SourceFile.ofTree "Outer.cs" outerTree = ⟨"Outer.cs", [],
    [⟨"Outer", .class, some "App", [], 1, [], [], [], [], [], ⟨"Outer.cs", .zero, .zero⟩⟩,
      ⟨"Inner", .class, some "App", ["Outer"], 0, [], [], ["TaskActivity<int, string>"], [], [],
        ⟨"Outer.cs", .zero, .zero⟩⟩], none⟩ := by
  have hspace : openedSpace none "App" = some "App" := by decide
  have hname : isNamed "App" = true := by decide
  have hbase : baseName? "TaskActivity<int, string>" = some "TaskActivity<int, string>" := by decide
  simp [SourceFile.ofTree, outerTree, outerForm, innerForm, usingsOf, typesOf, nestedTypes,
    TypeForm.toDecl, methodsOf, constantsOf, hspace, hname, hbase, Extent.toSpan]

/-- The inner class is registered without arguments for the outer one. -/
theorem not_isClosed_outerTree :
    (∃ above d, DeclaredIn "Outer.cs" outerTree above innerForm d ∧
      IsScanned (filesOf [("Outer.cs", outerTree)]) (.ofTree "Outer.cs" outerTree) d ∧
        ¬ IsClosed above innerForm) ∧
    (Outcome.run (.build (filesOf [("Outer.cs", outerTree)]) []) []
      (scan (filesOf [("Outer.cs", outerTree)]))).tasks.activities.map (·.declaration)
        = ["App.Outer.Inner"] := by
  have hopen : IsOpen [.spaceBlock "App" [.type outerForm [.type innerForm []]],
      .type outerForm [.type innerForm []]] :=
    (IsOpen.cons_block rfl).2 ⟨by decide, IsOpen.cons_type.2 nofun⟩
  have hin : DeclaredIn "Outer.cs" outerTree
      [.spaceBlock "App" [.type outerForm [.type innerForm []]],
        .type outerForm [.type innerForm []]] innerForm _ :=
    ⟨[0, 0, 0], [], .inside rfl (.inside rfl (.here rfl)), hopen, rfl⟩
  have htask : innerForm.IsTask :=
    ⟨rfl, by decide, rfl, _, List.mem_cons_self, "TaskActivity<int, string>", by decide,
      by decide +kernel⟩
  refine ⟨⟨_, _, hin, (isScanned_iff List.mem_cons_self hin).2 htask, ?_⟩, ?_⟩
  · intro h
    exact absurd (h.2 (.type outerForm [.type innerForm []]) (by simp)) (by decide)
  · rw [filesOf, List.map_singleton, ofTree_outerTree]
    decide +kernel

end Candidate

end TaskWrappers
