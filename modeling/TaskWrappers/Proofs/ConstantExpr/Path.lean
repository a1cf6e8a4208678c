import TaskWrappers.Proofs.ConstantExpr.Denotation
import TaskWrappers.Proofs.ConstantExpr.Literal
import TaskWrappers.Proofs.Text.Name
import TaskWrappers.Proofs.TypeExpr.Path

/-!
# Paths as constant expressions

A dotted path of names is a constant expression by itself (`ConstantExpr.spells_path`), and its
value is that of the first constant that it may refer to (`Model.constantValue_path`).
-/

namespace TaskWrappers

open Text

namespace ConstantToken

/-- No string starts with a character that a name starts with. -/
theorem string?_of_isNameStart {c : Char} (h : isNameStart c = true) (cs : List Char) :
    string? (c :: cs) = none := by
  unfold string?
  split
  all_goals first | rfl | (rename_i heq; cases heq; exact absurd h (by decide))

theorem scan_name {n : String} (hn : isName n = true) {ds : List Char}
    (hbreaks : ∀ d, ds.head? = some d → isNameRest d = false) :
    scan (n.toList ++ ds) = (scan ds).map (name n :: ·) := by
  obtain ⟨c, cs, hcs, hstart, hrest⟩ := isName_iff.1 hn
  obtain ⟨htake, hdrop⟩ := takeWhile_append_of_isNameRest hbreaks hrest
  have hat : c ≠ '@' := by
    rintro rfl
    exact absurd hstart (by decide)
  have hspace : ¬isSpace c = true := by
    rw [isSpace_of_isNameStart hstart]
    decide
  rw [hcs, List.cons_append, scan_unquoted hspace (string?_of_isNameStart hstart _),
    if_neg (by simp [hat]), if_pos hstart, htake, hdrop, ← hcs, String.ofList_toList]

theorem scan_dot (cs : List Char) : scan ('.' :: cs) = (scan cs).map (dot :: ·) := by
  rw [scan, if_neg (by decide)]
  rfl

theorem scan_colons (cs : List Char) :
    scan (':' :: ':' :: cs) = (scan cs).map (colons :: ·) := by
  rw [scan, if_neg (by decide)]
  rfl

end ConstantToken

namespace ConstantExpr

open ConstantToken

theorem scan_path : ∀ {names : List String} {n : String}, isName n = true →
    (∀ x ∈ names, isName x = true) →
      scan (Scope.dotted (n :: names)).toList = some (name n :: memberTokens names)
  | [], n, hn, _ => by
    rw [Scope.dotted, String.intercalate_singleton, ← List.append_nil n.toList,
      scan_name hn (by simp), scan]
    rfl
  | x :: names, n, hn, hnames => by
    have hdotted : (Scope.dotted (n :: x :: names)).toList
        = n.toList ++ '.' :: (Scope.dotted (x :: names)).toList := by
      rw [Scope.dotted, String.intercalate_cons_cons]
      simp [String.toList_append, Scope.dotted]
    have hrest := scan_path (hnames x List.mem_cons_self) fun y hy =>
      hnames y (List.mem_cons_of_mem x hy)
    rw [hdotted, scan_name hn (by intro d hd; cases hd; decide), scan_dot, hrest]
    rfl

/-- A path spells the constant of that path. -/
theorem spells_path {path : String} (h : ∀ n ∈ dotParts path, isName n = true) :
    Spells path [.constant path] := by
  obtain ⟨n, names, hparts⟩ := List.exists_cons_of_ne_nil (dotParts_ne_nil path)
  rw [hparts, List.forall_mem_cons] at h
  have hpath : Scope.dotted (n :: names) = path := by rw [← hparts, dotted_dotParts]
  have hscan := scan_path h.1 h.2
  have hterm := Derives.path n names
  rw [hpath] at hscan hterm
  exact ⟨_, hscan, .last hterm⟩

end ConstantExpr

/-- The value of a path is the value of the first constant that it may refer to. -/
theorem Model.constantValue_path (m : Model) (s : Scope) {path : String}
    (h : ∀ n ∈ dotParts path, isName n = true) :
    m.constantValue s path = ((m.candidates s path).findSome? m.constant?).bind fun c =>
      ConstantExpr.valueWithin m ConstantExpr.maxDepth c.scope c.value := by
  rw [constantValue, ConstantExpr.valueWithin_succ, (ConstantExpr.spells_path h).value?_eq,
    ConstantExpr.join_singleton]
  rfl

end TaskWrappers
