import TaskWrappers.Proofs.Outcome.Later
import TaskWrappers.Proofs.Resolution.Described

/-!
# Files that have nothing to do with the others

A file whose types and constants have names that no other file mentions (`Unrelated`) is passed over
by every reference of the others: what it declares would have to be called like the word that a
reference ends in (`Unrelated.agreeOnAll`). So all candidates of the other files are described as
without it, and if it has no task called like a function that is kept, all tasks and warnings stay
and its own come behind them (`Unrelated.extend_run`).
-/

namespace TaskWrappers

open Text

namespace SourceFile

/-- Whether a word occurs in a type or a constant expression of a file. -/
def Mentions (f : SourceFile) (word : String) : Prop :=
  (∃ text ∈ f.typeTexts, TypeExpr.HasWord text word) ∨
    ∃ expression ∈ f.expressions, ConstantExpr.HasWord expression word

instance (f : SourceFile) (word : String) : Decidable (f.Mentions word) :=
  inferInstanceAs (Decidable (_ ∨ _))

/-- The simple names of the types and constants that a file declares. -/
def declaredNames (f : SourceFile) : List String :=
  f.types.flatMap fun d => lastPart d.name :: d.constants.map fun c => lastPart c.name

end SourceFile

/-- A file without global directives that declares no type and no constant of a name that the other
files mention. -/
structure Unrelated (files : List SourceFile) (f : SourceFile) : Prop where
  globals : ∀ u ∈ f.usings, u.isGlobal = false
  names : ∀ name ∈ f.declaredNames, ∀ file ∈ files, ¬ file.Mentions name

theorem lastPart_fullName (d : TypeDecl) : lastPart d.fullName = lastPart d.name :=
  lastPart_dotted d.name (d.space.toList ++ d.containers)

namespace Unrelated

variable {files : List SourceFile} {f : SourceFile} (h : Unrelated files f)
  (implicitSpaces : List String)

include h

/-- The names that a file declares are all that it changes. -/
theorem agreeOnAll :
    (Model.build files implicitSpaces).AgreeOnAll (· ∉ f.declaredNames)
      (.build (files ++ [f]) implicitSpaces) where
  type? fullName arity hname := by
    have hown : (f.types.map KnownType.ofDecl).reverse.find?
        (fun t => t.fullName == fullName && t.arity == arity) = none := by
      refine List.find?_eq_none.2 fun t ht hfound => hname ?_
      obtain ⟨d, hd, rfl⟩ := List.mem_map.1 (List.mem_reverse.1 ht)
      rw [Bool.and_eq_true, beq_iff_eq] at hfound
      rw [← hfound.1, KnownType.ofDecl, lastPart_fullName]
      exact List.mem_flatMap.2 ⟨d, hd, List.mem_cons_self⟩
    simp only [Model.type?, Model.build, List.flatMap_append, List.flatMap_singleton,
      List.reverse_append, List.append_assoc, List.find?_append, hown, Option.none_or]
  constant? fullName hname := by
    have hown : (f.types.flatMap (KnownConstant.ofDecl f)).reverse.find? (·.fullName == fullName)
        = none := by
      refine List.find?_eq_none.2 fun c hc hfound => hname ?_
      obtain ⟨d, hd, hc⟩ := List.mem_flatMap.1 (List.mem_reverse.1 hc)
      obtain ⟨x, hx, rfl⟩ := List.mem_map.1 hc
      rw [← eq_of_beq hfound, lastPart_append]
      exact List.mem_flatMap.2 ⟨d, hd, List.mem_cons_of_mem _ (List.mem_map_of_mem hx)⟩
    simp only [Model.constant?, Model.build, List.flatMap_append, List.flatMap_singleton,
      List.reverse_append, List.find?_append, hown, Option.none_or]
  globalUsings := by
    have hown : f.usings.filter (·.isGlobal) = [] :=
      List.filter_eq_nil_iff.2 fun u hu => by simp [h.globals u hu]
    simp only [Model.build, List.flatMap_append, List.flatMap_singleton, hown, List.append_nil]
  implicitSpaces := rfl

omit implicitSpaces in
theorem wordsEnd {file : SourceFile} (hfile : file ∈ files) :
    file.WordsEnd (· ∉ f.declaredNames) where
  types text htext := TypeExpr.textWordsEnd_of_hasWord fun word hword hname =>
    h.names word hname file hfile (.inl ⟨text, htext, hword⟩)
  expressions e he := ConstantExpr.textWordsEnd_of_hasWord fun word hword hname =>
    h.names word hname file hfile (.inr ⟨e, he, hword⟩)

theorem run_eq (modules : List String) :
    Outcome.run (.build files implicitSpaces) modules (Candidate.scan files)
      = Outcome.run (.build (files ++ [f]) implicitSpaces) modules (Candidate.scan files) :=
  Outcome.run_eq_of_agreeOnAll (fun _ => h.wordsEnd) (h.agreeOnAll implicitSpaces) modules

/-- An unrelated file of which no task is called like a function that is kept adds its own tasks
behind the others in each list, and takes no task and no warning away. Both passes are meant to end:
no alias that is followed in them leads back to itself (`Model.resolveAlias`). -/
theorem extend_run (modules : List String)
    (hnames : ∀ c ∈ Candidate.scan [f],
      ∀ g ∈ (Outcome.run (.build files implicitSpaces) modules
          (Candidate.scan files)).tasks.functions,
        c.calledName (.build (files ++ [f]) implicitSpaces) ≠ g.name) :
    (∃ added : Part → List Described, ∀ p,
      (Outcome.run (.build (files ++ [f]) implicitSpaces) modules
          (Candidate.scan (files ++ [f]))).tasks.members p
          = (Outcome.run (.build files implicitSpaces) modules
              (Candidate.scan files)).tasks.members p ++ added p ∧
        (added p).Sublist ((Candidate.scan [f]).map
          (·.describe (.build (files ++ [f]) implicitSpaces)))) ∧
      (Outcome.run (.build files implicitSpaces) modules (Candidate.scan files)).warnings.Sublist
        (Outcome.run (.build (files ++ [f]) implicitSpaces) modules
          (Candidate.scan (files ++ [f]))).warnings := by
  have hscan : Candidate.scan (files ++ [f]) = Candidate.scan files ++ Candidate.scan [f] :=
    List.flatMap_append
  rw [h.run_eq implicitSpaces modules] at hnames ⊢
  rw [hscan]
  exact Outcome.run_append _ modules hnames

omit h

/-- A file with a class that is named by a constant, and a function. -/
def orderFile : SourceFile where
  path := "Order.cs"
  usings := []
  types := [
    ⟨"Ship", .class, some "App", [], 0, [], [⟨"DurableTask", [⟨none, "Ship.Task"⟩], default⟩],
      ["TaskActivity<Order, string>"], [], [⟨"Task", "string", "\"ShipOrder\""⟩], default⟩,
    ⟨"Jobs", .class, some "App", [], 0, ["static"], [], [],
      [⟨"Charge", "bool", [⟨"order", "Order", [⟨"ActivityTrigger", [], default⟩], []⟩],
        [⟨"Function", [⟨none, "nameof(Charge)"⟩], default⟩], ["static"], default⟩], [], default⟩,
    ⟨"Order", .record, some "App", [], 0, [], [], [], [], [], default⟩]
  damage := none

/-- A file of the same namespace with an activity of its own, which takes the other file's order. -/
def invoiceFile : SourceFile where
  path := "Invoice.cs"
  usings := []
  types := [
    ⟨"Invoice", .class, some "App", [], 0, [], [], ["TaskActivity<Order, Bill>"], [], [], default⟩,
    ⟨"Bill", .record, some "App", [], 0, [], [], [], [], [], default⟩]
  damage := none

theorem unrelated_invoice : Unrelated [orderFile] invoiceFile where
  globals := by decide
  names := by decide +kernel

theorem extend_run_invoice :
    Unrelated [orderFile] invoiceFile ∧
      (∀ c ∈ Candidate.scan [invoiceFile],
        ∀ g ∈ (Outcome.run (.build [orderFile] []) [] (Candidate.scan [orderFile])).tasks.functions,
          c.calledName (.build [orderFile, invoiceFile] []) ≠ g.name) ∧
      ∃ added : Part → List Described,
        ((Outcome.run (.build [orderFile, invoiceFile] []) []
          (Candidate.scan [orderFile, invoiceFile])).tasks.members .activities).map (·.name)
          = ["ShipOrder"] ++ (added .activities).map (·.name) ∧
        ((Outcome.run (.build [orderFile, invoiceFile] []) []
          (Candidate.scan [orderFile, invoiceFile])).tasks.members .functions).map (·.name)
          = ["Charge"] ++ (added .functions).map (·.name) := by
  have hnames : ∀ c ∈ Candidate.scan [invoiceFile],
      ∀ g ∈ (Outcome.run (.build [orderFile] []) [] (Candidate.scan [orderFile])).tasks.functions,
        c.calledName (.build [orderFile, invoiceFile] []) ≠ g.name := by
    decide +kernel
  obtain ⟨⟨added, hadded⟩, -⟩ := extend_run unrelated_invoice [] [] hnames
  refine ⟨unrelated_invoice, hnames, added, ?_, ?_⟩
  · refine (congrArg (List.map Described.name) (hadded .activities).1).trans ?_
    rw [List.map_append]
    exact congrArg (· ++ _) (by decide +kernel)
  · refine (congrArg (List.map Described.name) (hadded .functions).1).trans ?_
    rw [List.map_append]
    exact congrArg (· ++ _) (by decide +kernel)

end Unrelated

end TaskWrappers
