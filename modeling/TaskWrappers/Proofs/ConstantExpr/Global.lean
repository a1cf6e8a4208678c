import TaskWrappers.Proofs.ConstantExpr.Path

/-!
# Constants behind `global::`

In front of a constant's path `global::` says nothing: the path is looked up as it is by itself,
from the scope outward and then among the imports (`ConstantExpr.value?_global`). So it reaches the
constant of just that full name in the scopes that hide it behind no other
(`Model.ConstantUnhidden`), and has one value in all of these; elsewhere it has the value of the
constant that is nearer (`Model.constantValue_global`).
-/

namespace TaskWrappers

open Text

namespace ConstantExpr

open ConstantToken

theorem scan_global {names : List String} {n : String} (hn : isName n = true)
    (hnames : ∀ x ∈ names, isName x = true) :
    scan ("global::" ++ Scope.dotted (n :: names)).toList
      = some (name "global" :: colons :: name n :: memberTokens names) := by
  have htext : ("global::" ++ Scope.dotted (n :: names)).toList
      = "global".toList ++ ':' :: ':' :: (Scope.dotted (n :: names)).toList := by
    rw [String.toList_append]
    rfl
  have hbreaks : ∀ d, (':' :: ':' :: (Scope.dotted (n :: names)).toList).head? = some d →
      isNameRest d = false := by
    rintro d ⟨⟩
    decide
  rw [htext, scan_name (by decide) hbreaks, scan_colons, scan_path hn hnames]
  rfl

/-- A path has the same value with `global::` in front as without. -/
theorem value?_global {lookup : Lookup} {path : String}
    (h : ∀ n ∈ dotParts path, isName n = true) :
    value? lookup ("global::" ++ path) = lookup path := by
  obtain ⟨n, names, hparts⟩ := List.exists_cons_of_ne_nil (dotParts_ne_nil path)
  rw [hparts, List.forall_mem_cons] at h
  have hpath : Scope.dotted (n :: names) = path := by rw [← hparts, dotted_dotParts]
  have hscan := scan_global h.1 h.2
  have hread := path_members (ends_nil .term) names n
  rw [hpath] at hscan hread
  have hfull : fullPath "global" (colons :: name n :: memberTokens names) = some (path, []) := by
    rw [fullPath, if_pos rfl, ← List.append_nil (memberTokens names)]
    exact hread
  have hsum (k : Nat) :
      sum lookup (k + 1) (name "global" :: colons :: name n :: memberTokens names)
        = (lookup path).map (·, []) := by
    rw [sum_succ, term_path fun hfirst => absurd hfirst (by decide), hfull, Option.bind_some]
    dsimp only
    cases lookup path <;> rfl
  rw [value?, hscan]
  show (sum lookup (_ + 1) _).bind _ = _
  rw [hsum]
  cases lookup path <;> rfl

end ConstantExpr

namespace Scope

/-- What types and namespaces around a scope may declare under a name is not called so by itself. -/
theorem ne_of_mem_around {s : Scope} {name n : String}
    (h : n ∈ s.inTypes name ++ s.inSpaces name) : n ≠ name := by
  have hlonger (outer : String) : outer ++ "." ++ name ≠ name := by
    intro heq
    have hlen := congrArg String.length heq
    simp only [String.length_append] at hlen
    have : ".".length = 1 := rfl
    omega
  rcases List.mem_append.1 h with h | h
  · obtain ⟨types, -, rfl⟩ := List.mem_map.1 h
    exact hlonger _
  · unfold inSpaces at h
    split at h
    · cases h
    · obtain ⟨parts, -, rfl⟩ := List.mem_map.1 h
      exact hlonger _

end Scope

namespace Model

variable (m : Model)

/-- Whether a path means the constant of just that full name in a scope: no type or namespace around
the scope has one that ends in the path, and if none has just that name, nothing offers another. -/
def ConstantUnhidden (s : Scope) (path : String) : Prop :=
  (∀ n ∈ s.inTypes path ++ s.inSpaces path, m.constant? n = none) ∧
    (m.constant? path = none → ∀ n ∈ m.candidates s path, m.constant? n = none)

instance (s : Scope) (path : String) : Decidable (m.ConstantUnhidden s path) :=
  inferInstanceAs (Decidable ((∀ n ∈ s.inTypes path ++ s.inSpaces path, m.constant? n = none) ∧
    (m.constant? path = none → ∀ n ∈ m.candidates s path, m.constant? n = none)))

variable {m} {s : Scope} {path : String}

/-- Looking a path up finds the constant of just that full name if and only if it is not hidden. -/
theorem findSome?_candidates_iff :
    (m.candidates s path).findSome? m.constant? = m.constant? path ↔ m.ConstantUnhidden s path := by
  obtain ⟨rest, hsplit⟩ :
      ∃ rest, m.candidates s path = (s.inTypes path ++ s.inSpaces path) ++ path :: rest :=
    ⟨_, by rw [candidates, List.append_assoc _ [path], List.append_assoc _ ([path] ++ _)]; rfl⟩
  have hfind : (m.candidates s path).findSome? m.constant?
      = ((s.inTypes path ++ s.inSpaces path).findSome? m.constant?).or
          ((path :: rest).findSome? m.constant?) := by
    rw [hsplit, List.findSome?_append]
  cases hexact : m.constant? path with
  | none =>
    rw [List.findSome?_eq_none_iff, ConstantUnhidden]
    refine ⟨fun h => ⟨fun n hn => h n ?_, fun _ => h⟩, fun h => h.2 hexact⟩
    rw [hsplit]
    exact List.mem_append_left _ hn
  | some c =>
    have hnear : m.ConstantUnhidden s path
        ↔ (s.inTypes path ++ s.inSpaces path).findSome? m.constant? = none := by
      rw [List.findSome?_eq_none_iff, ConstantUnhidden, hexact]
      exact and_iff_left nofun
    rw [hnear, hfind, List.findSome?_cons, hexact]
    cases haround : (s.inTypes path ++ s.inSpaces path).findSome? m.constant? with
    | none => exact iff_of_true rfl rfl
    | some d =>
      refine iff_of_false (fun heq => ?_) nofun
      cases heq
      -- a constant has one full name
      obtain ⟨n, hn, hd⟩ := List.exists_of_findSome?_eq_some haround
      have hname : c.fullName = n := by simpa using List.find?_some hd
      have hpath : c.fullName = path := by simpa using List.find?_some hexact
      exact Scope.ne_of_mem_around hn (hname.symm.trans hpath)

/-- The value of the constant of a full name. -/
def exactValue (m : Model) (fullName : String) : Option String :=
  (m.constant? fullName).bind fun c =>
    ConstantExpr.valueWithin m ConstantExpr.maxDepth c.scope c.value

/-- Behind `global::` a path is looked up as without it. So it names the constant of just that full
name in the scopes that do not hide it, whose value it has in all of them, and in no other. -/
theorem constantValue_global (m : Model) {path : String}
    (hpath : ∀ n ∈ dotParts path, isName n = true) :
    (∀ s, m.constantValue s ("global::" ++ path)
      = ((m.candidates s path).findSome? m.constant?).bind fun c =>
          ConstantExpr.valueWithin m ConstantExpr.maxDepth c.scope c.value) ∧
    (∀ s, (m.candidates s path).findSome? m.constant? = m.constant? path
      ↔ m.ConstantUnhidden s path) ∧
    ∀ s, m.ConstantUnhidden s path →
      m.constantValue s ("global::" ++ path) = m.exactValue path := by
  have hvalue (s : Scope) : m.constantValue s ("global::" ++ path)
      = ((m.candidates s path).findSome? m.constant?).bind fun c =>
          ConstantExpr.valueWithin m ConstantExpr.maxDepth c.scope c.value := by
    rw [constantValue, ConstantExpr.valueWithin_succ, ConstantExpr.value?_global hpath]
    rfl
  refine ⟨hvalue, fun s => findSome?_candidates_iff, fun s hs => ?_⟩
  rw [hvalue, findSome?_candidates_iff.2 hs, exactValue]

/-- A class with a constant, and another class of that name in a namespace of that name. -/
def welcomes : List SourceFile :=
  [⟨"Names.cs", [],
      [⟨"Names", .class, some "App", [], 0, [], [], [], [], [⟨"Greet", "string", "\"Hello\""⟩],
        default⟩],
      none⟩,
    ⟨"Shop.cs", [],
      [⟨"Greeter", .class, some "Shop", [], 0, [], [], [], [], [], default⟩,
        ⟨"Names", .class, some "Shop.App", [], 0, [], [], [], [],
          [⟨"Greet", "string", "\"Welcome\""⟩], default⟩],
      none⟩]

theorem constantValue_global_welcomes :
    (∀ n ∈ dotParts "App.Names.Greet", isName n = true) ∧
      (build welcomes []).constantValue ⟨some "Depot", ["Store"], []⟩
        ("global::" ++ "App.Names.Greet") = some "Hello" ∧
      ((build welcomes []).candidates ⟨some "Shop", ["Greeter"], []⟩ "App.Names.Greet").findSome?
          (build welcomes []).constant?
        ≠ (build welcomes []).constant? "App.Names.Greet" := by
  have hpath : ∀ n ∈ dotParts "App.Names.Greet", isName n = true := by
    decide
  obtain ⟨-, hexact, hvalue⟩ := constantValue_global (build welcomes []) hpath
  refine ⟨hpath, ?_, fun h => ?_⟩
  · rw [hvalue _ (by decide)]
    decide +kernel
  · have hunhidden := (hexact _).1 h
    revert hunhidden
    decide

/-- From the class in `Shop` the path reaches the class in `Shop.App`, though there is a constant of
just that full name. -/
theorem constantValue_global_hidden :
    ((build welcomes []).constant? "App.Names.Greet").map (·.value) = some "\"Hello\"" ∧
      (build welcomes []).constantValue .global "global::App.Names.Greet" = some "Hello" ∧
      (build welcomes []).constantValue ⟨some "Shop", ["Greeter"], []⟩ "global::App.Names.Greet"
        = some "Welcome" := by
  decide +kernel

end Model

end TaskWrappers
