import TaskWrappers.Proofs.ConstantExpr.Reader

/-!
# What constant expressions stand for

The pieces of an expression stand for a text by a derivation: a path stands for what the expression
of the first constant among its candidates stands for where that constant is declared, and the
derivation of that is one level higher (`ConstantExpr.Denotes`). An expression has a value within a
depth exactly if its pieces have such a derivation of less height (`valueWithin_iff`), so following
references no deeper than a limit loses nothing else. No derivation goes through a constant that
needs itself (`valueWithin_exact`).
-/

namespace TaskWrappers.ConstantExpr

open ConstantToken

variable {m : Model} {s : Scope}

/-- The constant a path refers to: the first candidate that is one. -/
def FirstConstant (m : Model) (s : Scope) (path : String) (c : KnownConstant) : Prop :=
  ∃ before fullName after, m.candidates s path = before ++ fullName :: after ∧
    m.constant? fullName = some c ∧ ∀ n ∈ before, m.constant? n = none

/-- What pieces stand for in a scope, where references nest at most so deep. -/
inductive Denotes (m : Model) : Nat → Scope → List Piece → String → Prop where
  | nil (k : Nat) (s : Scope) : Denotes m k s [] ""
  | text {k : Nat} {s : Scope} {ps : List Piece} {more : String} (value : String)
      (hmore : Denotes m k s ps more) : Denotes m k s (.text value :: ps) (value ++ more)
  | constant {k : Nat} {s : Scope} {path : String} {c : KnownConstant} {ps qs : List Piece}
      {value more : String} (hfirst : FirstConstant m s path c) (hspells : Spells c.value qs)
      (hvalue : Denotes m k c.scope qs value) (hmore : Denotes m (k + 1) s ps more) :
      Denotes m (k + 1) s (.constant path :: ps) (value ++ more)

/-- Whether the value of an expression needs a constant, in itself or through other constants. -/
inductive Needs (m : Model) : Scope → String → KnownConstant → Prop where
  | direct {s : Scope} {expression path : String} {c : KnownConstant} {ps : List Piece}
      (hspells : Spells expression ps) (hmem : .constant path ∈ ps)
      (hfirst : FirstConstant m s path c) : Needs m s expression c
  | through {s : Scope} {expression : String} {c d : KnownConstant}
      (hneeds : Needs m s expression c) (hmore : Needs m c.scope c.value d) :
      Needs m s expression d

/-- The value that references have in a scope. -/
def reference (m : Model) (n : Nat) (s : Scope) : Lookup := fun path => do
  let c ← (m.candidates s path).findSome? m.constant?
  valueWithin m n c.scope c.value

theorem valueWithin_succ (n : Nat) (expression : String) :
    valueWithin m (n + 1) s expression = value? (reference m n s) expression :=
  rfl

theorem firstConstant_iff {path : String} {c : KnownConstant} :
    FirstConstant m s path c ↔ (m.candidates s path).findSome? m.constant? = some c := by
  rw [FirstConstant, List.findSome?_eq_some_iff]

theorem FirstConstant.unique {path : String} {c d : KnownConstant} (h : FirstConstant m s path c)
    (h' : FirstConstant m s path d) : c = d := by
  rw [firstConstant_iff] at h h'
  exact Option.some.inj (h.symm.trans h')

theorem reference_eq_some_iff {n : Nat} {path value : String} :
    reference m n s path = some value
      ↔ ∃ c, FirstConstant m s path c ∧ valueWithin m n c.scope c.value = some value := by
  rw [reference, Option.bind_eq_bind, Option.bind_eq_some_iff]
  simp only [firstConstant_iff]

theorem FirstConstant.mem {path : String} {c : KnownConstant} (h : FirstConstant m s path c) :
    c ∈ m.constants := by
  obtain ⟨_, _, _, _, hfound, _⟩ := h
  exact List.mem_of_find?_eq_some hfound

theorem join_cons_eq_some_iff {lookup : Lookup} {p : Piece} {ps : List Piece} {value : String} :
    join lookup (p :: ps) = some value
      ↔ ∃ first more, p.value? lookup = some first ∧ join lookup ps = some more ∧
        value = first ++ more := by
  rw [join, Option.bind_eq_bind, Option.bind_eq_some_iff]
  constructor
  · rintro ⟨first, hfirst, hbind⟩
    obtain ⟨more, hmore, heq⟩ := Option.bind_eq_some_iff.1 hbind
    cases heq
    exact ⟨first, more, hfirst, hmore, rfl⟩
  · rintro ⟨first, more, hfirst, hmore, rfl⟩
    exact ⟨first, hfirst, by rw [hmore]; rfl⟩

/-- Pieces stand for their joined value, if constants stand for theirs. -/
theorem join_reference_iff {n : Nat}
    (hvalues : ∀ c ∈ m.constants, ∀ value, valueWithin m n c.scope c.value = some value
      ↔ ∃ k qs, n = k + 1 ∧ Spells c.value qs ∧ Denotes m k c.scope qs value) :
    ∀ (ps : List Piece) {value : String},
      join (reference m n s) ps = some value ↔ Denotes m n s ps value
  | [], value => by
    constructor
    · intro h
      cases h
      exact .nil n s
    · intro h
      cases h
      rfl
  | .text first :: ps, value => by
    rw [join_cons_eq_some_iff]
    constructor
    · rintro ⟨_, more, hfirst, hmore, rfl⟩
      cases hfirst
      exact .text first ((join_reference_iff hvalues ps).1 hmore)
    · intro h
      cases h with
      | text _ hmore => exact ⟨first, _, rfl, (join_reference_iff hvalues ps).2 hmore, rfl⟩
  | .constant path :: ps, value => by
    rw [join_cons_eq_some_iff]
    constructor
    · rintro ⟨first, more, hfirst, hmore, rfl⟩
      obtain ⟨c, hc, hvalue⟩ := reference_eq_some_iff.1 hfirst
      obtain ⟨k, qs, rfl, hspells, hdenotes⟩ := (hvalues c hc.mem first).1 hvalue
      exact .constant hc hspells hdenotes ((join_reference_iff hvalues ps).1 hmore)
    · intro h
      cases h with
      | @constant k _ _ c _ qs first more hc hspells hdenotes hmore =>
        have hvalue := (hvalues c hc.mem first).2 ⟨k, qs, rfl, hspells, hdenotes⟩
        exact ⟨first, more, reference_eq_some_iff.2 ⟨c, hc, hvalue⟩,
          (join_reference_iff hvalues ps).2 hmore, rfl⟩

/-- An expression has a value exactly if its pieces derive it below the depth. -/
theorem valueWithin_iff (hm : ∀ c ∈ m.constants, GlobalFree c.value) : ∀ (n : Nat) (s : Scope)
    {expression value : String}, GlobalFree expression →
      (valueWithin m n s expression = some value
        ↔ ∃ k ps, n = k + 1 ∧ Spells expression ps ∧ Denotes m k s ps value)
  | 0, s, expression, value, _ => by
    constructor
    · intro h
      cases h
    · rintro ⟨k, _, heq, _⟩
      cases heq
  | n + 1, s, expression, value, he => by
    have hvalues : ∀ c ∈ m.constants, ∀ value, valueWithin m n c.scope c.value = some value
        ↔ ∃ k qs, n = k + 1 ∧ Spells c.value qs ∧ Denotes m k c.scope qs value :=
      fun c hc _ => valueWithin_iff hm n c.scope (hm c hc)
    rw [valueWithin_succ, value?_iff he]
    constructor
    · rintro ⟨ps, hspells, hjoin⟩
      exact ⟨n, ps, rfl, hspells, (join_reference_iff hvalues ps).1 hjoin⟩
    · rintro ⟨k, ps, heq, hspells, hdenotes⟩
      cases heq
      exact ⟨ps, hspells, (join_reference_iff hvalues ps).2 hdenotes⟩

theorem Denotes.mono {k : Nat} {ps : List Piece} {value : String} (h : Denotes m k s ps value) :
    ∀ {j : Nat}, k ≤ j → Denotes m j s ps value := by
  induction h with
  | nil _ s =>
    intro j _
    exact .nil j s
  | text value _ ih =>
    intro j hj
    exact .text value (ih hj)
  | constant hfirst hspells _ _ ih ih' =>
    intro j hj
    cases j with
    | zero => cases hj
    | succ j => exact .constant hfirst hspells (ih (Nat.le_of_succ_le_succ hj)) (ih' hj)

/-- More depth never changes a value. -/
theorem valueWithin_mono (hm : ∀ c ∈ m.constants, GlobalFree c.value) {expression value : String}
    (he : GlobalFree expression) {n n' : Nat} (hle : n ≤ n')
    (h : valueWithin m n s expression = some value) :
    valueWithin m n' s expression = some value := by
  obtain ⟨k, ps, rfl, hspells, hdenotes⟩ := (valueWithin_iff hm n s he).1 h
  cases n' with
  | zero => cases hle
  | succ n' =>
    exact (valueWithin_iff hm (n' + 1) s he).2
      ⟨n', ps, rfl, hspells, hdenotes.mono (Nat.le_of_succ_le_succ hle)⟩

theorem join_mem {lookup : Lookup} {path value : String} : ∀ {ps : List Piece},
    .constant path ∈ ps → join lookup ps = some value → ∃ first, lookup path = some first
  | p :: ps, hmem, h => by
    obtain ⟨first, more, hfirst, hmore, -⟩ := join_cons_eq_some_iff.1 h
    cases hmem with
    | head => exact ⟨first, hfirst⟩
    | tail _ hmem => exact join_mem hmem hmore

/-- A constant that an expression needs has a value within less depth. -/
theorem Needs.exists_value {expression : String} {c : KnownConstant}
    (h : Needs m s expression c) : ∀ {n : Nat} {value : String},
      valueWithin m n s expression = some value →
        ∃ k w, k < n ∧ valueWithin m k c.scope c.value = some w := by
  induction h with
  | @direct s expression path c ps hspells hmem hfirst =>
    intro n value hvalue
    cases n with
    | zero => cases hvalue
    | succ n =>
      rw [valueWithin_succ, hspells.value?_eq] at hvalue
      obtain ⟨w, hw⟩ := join_mem hmem hvalue
      obtain ⟨c', hfirst', hc'⟩ := reference_eq_some_iff.1 hw
      rw [hfirst.unique hfirst']
      exact ⟨n, w, Nat.lt_succ_self n, hc'⟩
  | through _ _ ih ih' =>
    intro n value hvalue
    obtain ⟨k, w, hk, hw⟩ := ih hvalue
    obtain ⟨j, v, hj, hv⟩ := ih' hw
    exact ⟨j, v, Nat.lt_trans hj hk, hv⟩

/-- A constant that needs itself has no value. -/
theorem Needs.self_eq_none {c : KnownConstant} (h : Needs m c.scope c.value c) (n : Nat) :
    valueWithin m n c.scope c.value = none := by
  -- a value within `n` leaves the same constant a value within less
  induction n using Nat.strongRecOn with
  | ind n ih =>
    cases hvalue : valueWithin m n c.scope c.value with
    | none => rfl
    | some value =>
      obtain ⟨k, w, hk, hw⟩ := h.exists_value hvalue
      rw [ih k hk] at hw
      cases hw

/-- An expression that references may still go `maxDepth - depth` deep from has exactly the values
it derives with references nested no deeper. It has the same value at every depth that gives it one,
and none at all if it needs a constant that needs itself. -/
theorem valueWithin_exact (hm : ∀ c ∈ m.constants, GlobalFree c.value) (s : Scope)
    {expression : String} (he : GlobalFree expression) :
    (∀ depth ≤ maxDepth, ∀ value,
      valueWithin m (maxDepth + 1 - depth) s expression = some value
        ↔ ∃ ps, Spells expression ps ∧ Denotes m (maxDepth - depth) s ps value) ∧
    (∀ depth depth' value value',
      valueWithin m (maxDepth + 1 - depth) s expression = some value →
        valueWithin m (maxDepth + 1 - depth') s expression = some value' → value = value') ∧
    (∀ c, Needs m s expression c → Needs m c.scope c.value c → ∀ depth,
      valueWithin m (maxDepth + 1 - depth) s expression = none) := by
  refine ⟨?_, ?_, ?_⟩
  · intro depth hdepth value
    rw [valueWithin_iff hm _ s he]
    constructor
    · rintro ⟨k, ps, hk, hspells, hdenotes⟩
      obtain rfl : k = maxDepth - depth := by omega
      exact ⟨ps, hspells, hdenotes⟩
    · rintro ⟨ps, hspells, hdenotes⟩
      exact ⟨maxDepth - depth, ps, by omega, hspells, hdenotes⟩
  · intro depth depth' value value' h h'
    rcases Nat.le_total (maxDepth + 1 - depth) (maxDepth + 1 - depth') with hle | hle
    · rw [valueWithin_mono hm he hle h] at h'
      exact Option.some.inj h'
    · rw [valueWithin_mono hm he hle h'] at h
      exact (Option.some.inj h).symm
  · intro c hneeds hself depth
    cases hvalue : valueWithin m (maxDepth + 1 - depth) s expression with
    | none => rfl
    | some value =>
      obtain ⟨k, w, -, hw⟩ := hneeds.exists_value hvalue
      rw [hself.self_eq_none k] at hw
      cases hw

/-- Constants of one class, of which the last needs itself. -/
def names : Model where
  types := []
  constants :=
    [⟨"Names.Prefix", "\"App\"", ⟨none, ["Names"], []⟩⟩,
      ⟨"Names.Ship", "Prefix + (\".\" + nameof(Orders.Ship))", ⟨none, ["Names"], []⟩⟩,
      ⟨"Names.Loop", "Loop + Prefix", ⟨none, ["Names"], []⟩⟩]
  globalUsings := []
  implicitSpaces := []

/-- References nest two deep from `Names.Ship`, and without end from `Names.Loop`. -/
theorem valueWithin_exact_names :
    (∀ c ∈ names.constants, GlobalFree c.value) ∧ GlobalFree "Names.Ship" ∧
      (∃ ps, Spells "Names.Ship" ps ∧ Denotes names 2 .global ps "App.Ship") ∧
      (¬ ∃ ps, Spells "Names.Ship" ps ∧ Denotes names 1 .global ps "App.Ship") ∧
      ∀ depth, valueWithin names (maxDepth + 1 - depth) .global "Names.Loop + \"\"" = none := by
  have hm : ∀ c ∈ names.constants, GlobalFree c.value := by
    decide +kernel
  have he : GlobalFree "Names.Ship" := by
    decide +kernel
  have hship := (valueWithin_exact hm .global he).1
  refine ⟨hm, he, ?_, ?_, ?_⟩
  · exact (hship 14 (by decide) "App.Ship").1 (by decide +kernel)
  · intro h
    have hvalue := (hship 15 (by decide) "App.Ship").2 h
    revert hvalue
    decide +kernel
  · have hloop : Needs names ⟨none, ["Names"], []⟩ "Loop + Prefix"
        ⟨"Names.Loop", "Loop + Prefix", ⟨none, ["Names"], []⟩⟩ := by
      refine .direct ⟨[name "Loop", plus, name "Prefix"], by decide +kernel,
        .plus (.path "Loop" []) (.last (.path "Prefix" []))⟩ (List.mem_cons_self ..) ?_
      exact firstConstant_iff.2 (by rfl)
    refine (valueWithin_exact hm .global (by decide +kernel)).2.2
      ⟨"Names.Loop", "Loop + Prefix", ⟨none, ["Names"], []⟩⟩ ?_ hloop
    refine .direct ⟨[name "Names", dot, name "Loop", plus, text []], by decide +kernel,
      .plus (.path "Names" ["Loop"]) (.last (.text []))⟩ (List.mem_cons_self ..) ?_
    exact firstConstant_iff.2 (by rfl)

end TaskWrappers.ConstantExpr
