import Mathlib.Data.List.Induction
import TaskWrappers.Proofs.Resolution.Canonical

/-!
# The nearest declaration

The namespace and the types around a scope are one row of names, outermost first
(`Scope.around`), and a name may be declared inside the first `k` of them for every `k`, from all of
them down to none (`Scope.near_eq`). So a name without arguments that is declared there means the
declaration inside most of them, and since imports are asked later, it means that one under all
imports (`Model.resolve_nearest`).
-/

namespace TaskWrappers

open Text

/-- Going down from a bound, the first hit is the greatest. -/
theorem findSome?_reverse_range {α : Type} {f : Nat → Option α} {a : α} : ∀ {n : Nat},
    (List.range n).reverse.findSome? f = some a ↔
      ∃ k < n, f k = some a ∧ ∀ j < n, k < j → f j = none
  | 0 => by simp
  | n + 1 => by
    rw [List.range_succ, List.reverse_append, List.reverse_singleton, List.singleton_append,
      List.findSome?_cons]
    rcases hn : f n with _ | b
    · simp only [findSome?_reverse_range]
      constructor
      · rintro ⟨k, hk, ha, hlater⟩
        refine ⟨k, by omega, ha, fun j hj hkj => ?_⟩
        rcases Nat.lt_succ_iff_lt_or_eq.1 hj with hj | rfl
        · exact hlater j hj hkj
        · exact hn
      · rintro ⟨k, hk, ha, hlater⟩
        rcases Nat.lt_succ_iff_lt_or_eq.1 hk with hk | rfl
        · exact ⟨k, hk, ha, fun j hj hkj => hlater j (by omega) hkj⟩
        · simp [hn] at ha
    · constructor
      · rintro ⟨⟩
        exact ⟨n, by omega, hn, fun j hj hnj => by omega⟩
      · rintro ⟨k, hk, ha, hlater⟩
        rcases Nat.lt_succ_iff_lt_or_eq.1 hk with hk | rfl
        · simp [hlater n (by omega) hk] at hn
        · rw [← hn, ha]

namespace Scope

/-- The names around a scope from the outermost in: the parts of its namespace, then its types. -/
def around (s : Scope) : List String := s.space.elim [] dotParts ++ s.chain

/-- The full name of what is called `name` inside the outermost `k` of the names around a scope. -/
def nameAt (s : Scope) (k : Nat) (name : String) : String :=
  dotted (s.around.take k ++ [name])

theorem outward_concat (parts : List String) (x : String) :
    outward (parts ++ [x]) = (parts ++ [x]) :: outward parts := by
  unfold outward
  rw [List.length_append, List.length_singleton, List.range_succ_eq_map, List.map_cons,
    List.map_map]
  refine congrArg₂ _ (List.take_of_length_le (by simp)) (List.map_congr_left fun k _ => ?_)
  rw [Function.comp_apply, Nat.succ_eq_add_one, Nat.add_sub_add_right]
  exact List.take_append_of_le_length (Nat.sub_le _ _)

theorem outward_append (outer : List String) (inner : List String) :
    outward (outer ++ inner) = (outward inner).map (outer ++ ·) ++ outward outer := by
  induction inner using List.reverseRecOn with
  | nil => simp [outward]
  | append_singleton inner x ih =>
    rw [← List.append_assoc, outward_concat, ih, outward_concat, List.map_cons, List.cons_append,
      List.append_assoc]

/-- With the empty part, the initial parts of a list are what its first `k` make. -/
theorem outward_concat_nil (parts : List String) :
    outward parts ++ [[]] = (List.range (parts.length + 1)).reverse.map (parts.take ·) := by
  induction parts using List.reverseRecOn with
  | nil => rfl
  | append_singleton parts x ih =>
    have htake : ∀ k ∈ (List.range (parts.length + 1)).reverse,
        (parts ++ [x]).take k = parts.take k := by
      intro k hk
      refine List.take_append_of_le_length ?_
      simp only [List.mem_reverse, List.mem_range] at hk
      omega
    rw [outward_concat, List.cons_append, ih, List.length_append, List.length_singleton,
      List.range_succ (n := parts.length + 1), List.reverse_append, List.reverse_singleton,
      List.singleton_append, List.map_cons, List.map_congr_left htake,
      List.take_of_length_le (by simp)]

theorem ne_nil_of_mem_outward {parts part : List String} (h : part ∈ outward parts) :
    part ≠ [] := by
  obtain ⟨k, hk, rfl⟩ := List.mem_map.1 h
  rw [List.mem_range] at hk
  rw [ne_eq, List.take_eq_nil_iff]
  rintro (hzero | rfl)
  · omega
  · simp at hk

theorem dotted_concat {parts : List String} (h : parts ≠ []) (name : String) :
    dotted (parts ++ [name]) = dotted parts ++ "." ++ name := by
  rw [dotted, String.intercalate_append_of_ne_nil h (by simp), String.intercalate_singleton]
  rfl

/-- The types around a scope are inside all of its namespace. -/
theorem inTypes_eq (s : Scope) (name : String) :
    s.inTypes name = (outward s.chain).map fun types =>
      dotted (s.space.elim [] dotParts ++ types ++ [name]) := by
  refine List.map_congr_left fun types htypes => ?_
  have hne := ne_nil_of_mem_outward htypes
  rw [dotted_concat (by simp [hne])]
  cases s.space with
  | none => rfl
  | some space =>
    rw [Option.elim_some, Option.toList_some, dotted, dotted, List.singleton_append,
      String.intercalate_cons_of_ne_nil hne,
      String.intercalate_append_of_ne_nil (dotParts_ne_nil space) hne]
    exact congrArg (· ++ "." ++ _ ++ "." ++ name) (dotted_dotParts space).symm

theorem inSpaces_eq (s : Scope) (name : String) :
    s.inSpaces name
      = (outward (s.space.elim [] dotParts)).map fun parts => dotted (parts ++ [name]) := by
  unfold inSpaces
  split
  · rename_i hspace
    rw [hspace]
    rfl
  · rename_i space hspace
    rw [hspace, Option.elim_some]
    exact List.map_congr_left fun parts hparts =>
      (dotted_concat (ne_nil_of_mem_outward hparts) name).symm

/-- What is near a scope is inside all names around it, or inside fewer of them down to none. -/
theorem near_eq (s : Scope) (name : String) :
    s.near name = (List.range (s.around.length + 1)).reverse.map (s.nameAt · name) := by
  have hglobal : [name] = [([] : List String)].map fun parts => dotted (parts ++ [name]) := by
    simp [dotted]
  have houtward := outward_append (s.space.elim [] dotParts) s.chain
  have hdown := congrArg (List.map fun parts => dotted (parts ++ [name]))
    (outward_concat_nil s.around)
  rw [around, houtward, ← around, List.map_append, List.map_append, List.map_map,
    List.map_map] at hdown
  rw [near, inTypes_eq, inSpaces_eq, hglobal]
  exact hdown

theorem mem_near_iff {s : Scope} {name n : String} :
    n ∈ s.near name ↔ ∃ k ≤ s.around.length, n = s.nameAt k name := by
  rw [s.near_eq]
  constructor
  · intro h
    obtain ⟨k, hk, rfl⟩ := List.mem_map.1 h
    exact ⟨k, by simpa [Nat.lt_succ_iff] using hk, rfl⟩
  · rintro ⟨k, hk, rfl⟩
    exact List.mem_map.2 ⟨k, by simpa [Nat.lt_succ_iff] using hk, rfl⟩

end Scope

namespace Model

variable {m : Model} {s : Scope}

theorem near_prefix_candidates (m : Model) (s : Scope) (name : String) :
    s.near name <+: m.candidates s name := by
  rw [candidates, List.append_assoc]
  exact List.prefix_append _ _

/-- What is declared near a scope is found there, whatever is imported. -/
theorem known?_of_near {name : String} {k : Nat} {t : KnownType}
    (h : (s.near name).findSome? (m.type? · k) = some t) : m.known? s none name k = some t := by
  obtain ⟨rest, hrest⟩ := near_prefix_candidates m s name
  rw [known?, ← hrest, List.findSome?_append, h]
  rfl

/-- A full name that a declaration of the arity has is found. -/
theorem type?_eq_none_iff {name : String} {k : Nat} :
    m.type? name k = none ↔ ∀ t ∈ m.types, ¬ (t.fullName = name ∧ t.arity = k) := by
  simp [type?]

/-- A name that is declared in a type or namespace around the scope, or in the global namespace, is
declared inside most of the names around the scope once. -/
theorem near_innermost {name : String} (hdeclared : ∃ k ≤ s.around.length, ∃ t ∈ m.types,
      t.fullName = s.nameAt k name ∧ t.arity = 0) :
    ∃ k ≤ s.around.length, ∃ t, m.type? (s.nameAt k name) 0 = some t ∧
      (∀ j ≤ s.around.length, k < j → m.type? (s.nameAt j name) 0 = none) ∧
      (s.near name).findSome? (m.type? · 0) = some t := by
  have hsome : (s.near name).findSome? (m.type? · 0) ≠ none := by
    obtain ⟨k, hk, t, ht, hmatch⟩ := hdeclared
    intro hnone
    have hmem : s.nameAt k name ∈ s.near name := Scope.mem_near_iff.2 ⟨k, hk, rfl⟩
    exact type?_eq_none_iff.1 (List.findSome?_eq_none_iff.1 hnone _ hmem) t ht hmatch
  obtain ⟨t, ht⟩ := Option.ne_none_iff_exists'.1 hsome
  have hdown := ht
  rw [s.near_eq, List.findSome?_map] at hdown
  obtain ⟨k, hk, hat, hinner⟩ := findSome?_reverse_range.1 hdown
  exact ⟨k, by omega, t, hat, fun j hj hkj => hinner j (by omega) hkj, ht⟩

/-- A name without arguments that is declared in a type or namespace around the scope, or in the
global namespace, means the innermost declaration, whatever the scope's file, the pass and the
project import. -/
theorem resolve_nearest {outer : List Segment} {last : Segment}
    (hplain : ∀ x ∈ outer ++ [last], x.isGeneric = false)
    (hdeclared : ∃ k ≤ s.around.length, ∃ t ∈ m.types,
      t.fullName = s.nameAt k (Scope.dotted ((outer ++ [last]).map Segment.name)) ∧ t.arity = 0) :
    ∃ k ≤ s.around.length, ∃ t,
      m.type? (s.nameAt k (Scope.dotted ((outer ++ [last]).map Segment.name))) 0 = some t ∧
      (∀ j ≤ s.around.length, k < j → ∀ u ∈ m.types,
        ¬ (u.fullName = s.nameAt j (Scope.dotted ((outer ++ [last]).map Segment.name)) ∧
          u.arity = 0)) ∧
      ∀ (m' : Model) (s' : Scope), m'.types = m.types → s'.space = s.space → s'.chain = s.chain →
        m'.resolve s' (.named none outer last) = some (.ofKnown t []) := by
  obtain ⟨k, hk, t, hat, hinner, hnear⟩ := near_innermost hdeclared
  refine ⟨k, hk, t, hat, fun j hj hkj => type?_eq_none_iff.1 (hinner j hj hkj), ?_⟩
  intro m' s' htypes hspace hchain
  have hnear' : (s'.near (Scope.dotted ((outer ++ [last]).map Segment.name))).findSome?
      (m'.type? · 0) = some t := by
    rw [s'.near_eq]
    unfold Scope.nameAt Scope.around type?
    rw [htypes, hspace, hchain]
    rw [s.near_eq] at hnear
    exact hnear
  have houter : ¬ outer.any Segment.isGeneric = true := by
    rw [Bool.not_eq_true, List.any_eq_false]
    intro x hx
    simp [hplain x (by simp [hx])]
  rcases last with name | ⟨name, first, rest⟩
  · rw [resolve, resolveWith, named, if_neg houter, List.length_nil, known?_of_near hnear']
  · have hlast := hplain _ (List.mem_append_right outer (List.mem_singleton_self _))
    simp [Segment.isGeneric] at hlast

/-- Two types of one name, one of them around `App.Flows.Outer.Run` and the other one imported. -/
def shares : SourceFile where
  path := "Flows.cs"
  usings := [⟨.space, "Lib", false⟩, ⟨.aliased "Shared", "Lib.Shared", false⟩]
  types := [⟨"Shared", .class, some "Lib", [], 0, [], [], [], [], [], default⟩,
    ⟨"Shared", .struct, some "App", [], 0, [], [], [], [], [], default⟩,
    ⟨"Outer", .class, some "App.Flows", [], 0, [], [], [], [], [], default⟩,
    ⟨"Run", .class, some "App.Flows", ["Outer"], 0, [], [], [], [], [], default⟩]
  damage := none

theorem resolve_nearest_shared :
    (∀ x ∈ [] ++ [Segment.plain "Shared"], x.isGeneric = false) ∧
      (∃ k ≤ (Scope.around ⟨some "App.Flows", ["Outer", "Run"], shares.usings⟩).length,
        ∃ t ∈ (build [shares] []).types, t.fullName = Scope.nameAt
          ⟨some "App.Flows", ["Outer", "Run"], shares.usings⟩ k "Shared" ∧ t.arity = 0) ∧
      (build [shares] []).resolve ⟨some "App.Flows", ["Outer", "Run"], shares.usings⟩
        (.named none [] (.plain "Shared")) = some ⟨"App.Shared", some "App", false, false⟩ := by
  have hplain : ∀ x ∈ [] ++ [Segment.plain "Shared"], x.isGeneric = false := by decide
  have hdeclared : ∃ k ≤ (Scope.around ⟨some "App.Flows", ["Outer", "Run"], shares.usings⟩).length,
      ∃ t ∈ (build [shares] []).types, t.fullName = Scope.nameAt
        ⟨some "App.Flows", ["Outer", "Run"], shares.usings⟩ k "Shared" ∧ t.arity = 0 :=
    ⟨1, by decide +kernel, ⟨"App.Shared", 0, some "App", false⟩, by decide +kernel,
      by decide +kernel⟩
  obtain ⟨k, hk, t, hat, -, hall⟩ := resolve_nearest hplain hdeclared
  refine ⟨hplain, hdeclared, ?_⟩
  rw [hall _ _ rfl rfl rfl]
  have hlength :
      (Scope.around ⟨some "App.Flows", ["Outer", "Run"], shares.usings⟩).length = 4 := by
    decide +kernel
  have hfound : ∀ k ≤ 4, (build [shares] []).type? (Scope.nameAt
      ⟨some "App.Flows", ["Outer", "Run"], shares.usings⟩ k "Shared") 0
        = if k = 1 then some ⟨"App.Shared", 0, some "App", false⟩ else none := by
    decide +kernel
  have hname : Scope.dotted (([] ++ [Segment.plain "Shared"]).map Segment.name) = "Shared" := by
    decide +kernel
  rw [hname, hfound k (hlength ▸ hk)] at hat
  split at hat
  · obtain rfl := Option.some.inj hat
    decide
  · cases hat

end Model

end TaskWrappers
