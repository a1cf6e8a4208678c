import Mathlib.Data.List.Lex
import TaskWrappers.Proofs.Conditional

/-!
# Where declarations stand

The types of a file are those that stand somewhere in its tree, each once and in the order of the
document, but for types in a namespace inside of a type, where no namespace belongs, or in one
without a name (`SourceFile.types_exact`). A type has the names of the types around it, outermost
first, and the one nearest around it comes before it, in the same namespace.

Addresses number the items from the file's down to the one meant, among those beside it, and so
the lexicographic order of addresses is the order of the document.
-/

namespace TaskWrappers

open Source

namespace Source

/-- The items directly inside of an item. -/
def Item.body : Item → List Item
  | .spaceBlock _ body | .conditional body | .type _ body => body
  | _ => []

def Item.isSpace : Item → Bool
  | .spaceBlock .. => true
  | _ => false

/-- Whether an item is a namespace without a name. -/
def Item.isNameless : Item → Bool
  | .spaceBlock name _ => !isNamed name
  | _ => false

def Item.typeName? : Item → Option String
  | .type form _ => some form.name
  | _ => none

/-- That an item stands at an address, inside of others, the outermost of them first. -/
inductive At : List Item → List Nat → List Item → Item → Prop
  | here {items : List Item} {i : Nat} {x : Item} : items[i]? = some x → At items [i] [] x
  | inside {items : List Item} {i : Nat} {outer x : Item} {a : List Nat} {above : List Item} :
      items[i]? = some outer → At outer.body a above x → At items (i :: a) (outer :: above) x

/-- That no type is around a namespace. -/
def NoSpaceInType (above : List Item) : Prop :=
  above.Pairwise fun outer inner => outer.typeName?.isSome → inner.isSpace = false

/-- That the items around another one do not keep it from being declared: no type is around a
namespace, and no namespace is without a name. -/
structure IsOpen (above : List Item) : Prop where
  plain : NoSpaceInType above
  named : ∀ x ∈ above, x.isNameless = false

/-- The namespace at an address. It goes on through types, where nothing opens another one. -/
def spaceAt : Option String → List Item → List Nat → Option String
  | space, _, [] => space
  | space, items, i :: a =>
    match items[i]? with
    | some (.spaceBlock name body) =>
      spaceAt (openedSpace (spaceBehind space (items.take i)) name) body a
    | some (.conditional body) => spaceAt (spaceBehind space (items.take i)) body a
    | _ => spaceBehind space (items.take i)

theorem isNameless_of_isSpace {x : Item} (h : x.isSpace = false) : x.isNameless = false := by
  cases x with
  | spaceBlock => cases h
  | _ => rfl

namespace IsOpen

variable {item : Item} {above below : List Item}

theorem nil : IsOpen [] := ⟨.nil, nofun⟩

theorem sublist (h : IsOpen above) (hsub : below.Sublist above) : IsOpen below :=
  ⟨h.plain.sublist hsub, fun x hx => h.named x (hsub.subset hx)⟩

theorem of_forall (h : ∀ x ∈ above, x.isSpace = false) : IsOpen above :=
  ⟨List.pairwise_of_forall_mem_list fun _ _ x hx _ => h x hx,
    fun x hx => isNameless_of_isSpace (h x hx)⟩

/-- In a type no further namespace can be open. -/
theorem cons_type {form : TypeForm} {members : List Item} :
    IsOpen (.type form members :: above) ↔ ∀ x ∈ above, x.isSpace = false := by
  constructor
  · intro h x hx
    exact (List.pairwise_cons.1 h.plain).1 x hx rfl
  · intro h
    refine ⟨List.pairwise_cons.2 ⟨fun x hx _ => h x hx, (of_forall h).plain⟩, ?_⟩
    exact List.forall_mem_cons.2 ⟨rfl, (of_forall h).named⟩

theorem cons_block (hitem : item.typeName? = none) :
    IsOpen (item :: above) ↔ item.isNameless = false ∧ IsOpen above := by
  constructor
  · intro h
    obtain ⟨hnamed, habove⟩ := List.forall_mem_cons.1 h.named
    exact ⟨hnamed, (List.pairwise_cons.1 h.plain).2, habove⟩
  · rintro ⟨hnamed, h⟩
    refine ⟨List.pairwise_cons.2 ⟨fun x _ htype => ?_, h.plain⟩,
      List.forall_mem_cons.2 ⟨hnamed, h.named⟩⟩
    rw [hitem] at htype
    cases htype

end IsOpen

section At

variable {items : List Item} {a : List Nat} {above between : List Item} {x y : Item}

theorem not_at_nil_address : ¬ At items [] above x := nofun

theorem not_at_nil : ¬ At [] a above x := by
  rintro (h | ⟨h, -⟩) <;> cases h

theorem at_cons_succ {i : Nat} {item : Item} :
    At (item :: items) ((i + 1) :: a) above x ↔ At items (i :: a) above x := by
  constructor
  · rintro (h | ⟨h, hx⟩)
    · exact .here h
    · exact .inside h hx
  · rintro (h | ⟨h, hx⟩)
    · exact .here h
    · exact .inside h hx

theorem at_cons_zero {item : Item} :
    At (item :: items) (0 :: a) above x ↔
      (a = [] ∧ above = [] ∧ x = item) ∨
        ∃ rest, above = item :: rest ∧ At item.body a rest x := by
  constructor
  · rintro (h | ⟨h, hx⟩)
    · cases h
      exact .inl ⟨rfl, rfl, rfl⟩
    · cases h
      exact .inr ⟨_, rfl, hx⟩
  · rintro (⟨rfl, rfl, rfl⟩ | ⟨rest, rfl, hx⟩)
    · exact .here rfl
    · exact .inside rfl hx

theorem length_at (h : At items a above x) : a.length = above.length + 1 := by
  induction h with
  | here => rfl
  | inside _ _ ih => rw [List.length_cons, List.length_cons, ih]

/-- Each item around an address has an address of its own on the way. -/
theorem at_take : ∀ {above : List Item} {items : List Item} {a : List Nat},
    At items a (above ++ y :: between) x → At items (a.take (above.length + 1)) above y
  | [], _, _, .inside hi _ => .here hi
  | _ :: _, _, _, .inside hi h => .inside hi (at_take h)

/-- The namespace at an address in a type is the one that the type is in. -/
theorem spaceAt_take {form : TypeForm} {members : List Item} :
    ∀ {above : List Item} {space : Option String} {items : List Item} {a : List Nat},
      At items a (above ++ .type form members :: between) x →
        spaceAt space items (a.take (above.length + 1)) = spaceAt space items a
  | [], space, items, _, .inside hi _ => by
    simp only [List.length_nil, List.take_succ_cons, spaceAt, hi]
  | outer :: above, space, items, _, .inside hi h => by
    simp only [List.length_cons, List.take_succ_cons, spaceAt, hi]
    cases outer with
    | spaceBlock | conditional => exact spaceAt_take h
    | _ => rfl

end At

section Rows

/-- That rows are what is related to addresses, in the order of these. -/
structure IsIndex (R : List Nat → TypeDecl → Prop) (rows : List (List Nat × TypeDecl)) : Prop where
  sorted : (rows.map (·.1)).Pairwise (· < ·)
  mem_iff : ∀ a d, (a, d) ∈ rows ↔ R a d

/-- The address of the same item when one more stands before it. -/
def shift : List Nat → List Nat
  | [] => []
  | i :: a => (i + 1) :: a

/-- A row for an address inside of the first item. -/
def inFirst (row : List Nat × TypeDecl) : List Nat × TypeDecl := (0 :: row.1, row.2)

/-- A row for an address behind the first item. -/
def behindFirst (row : List Nat × TypeDecl) : List Nat × TypeDecl := (shift row.1, row.2)

variable {R T : List Nat → TypeDecl → Prop} {hs ts : List (List Nat × TypeDecl)} {d : TypeDecl}

/-- Rows of what is not at the address itself, with one for that. -/
theorem IsIndex.root (h : IsIndex T hs) (hnil : ∀ e, ¬ T [] e) (hroot : ∀ e, R [] e ↔ e = d)
    (hR : ∀ i a e, R (i :: a) e ↔ T (i :: a) e) : IsIndex R (([], d) :: hs) where
  sorted := by
    rw [List.map_cons, List.pairwise_cons]
    refine ⟨fun a ha => ?_, h.sorted⟩
    obtain ⟨⟨b, e⟩, hb, rfl⟩ := List.mem_map.1 ha
    cases b with
    | nil => exact (hnil e ((h.mem_iff _ _).1 hb)).elim
    | cons i b => exact List.nil_lt_cons i b
  mem_iff a e := by
    rw [List.mem_cons, h.mem_iff]
    cases a with
    | nil => simp only [Prod.mk.injEq, true_and, hnil, or_false, hroot]
    | cons i a => simp only [Prod.mk.injEq, reduceCtorEq, false_and, false_or, hR]

theorem shift_lt_shift : ∀ {a b : List Nat}, a < b → shift a < shift b
  | [], _ :: _, _ => List.nil_lt_cons _ _
  | _ :: _, _ :: _, h => by
    rw [List.cons_lt_cons_iff] at h
    rw [shift, shift, List.cons_lt_cons_iff]
    exact h.imp Nat.succ_lt_succ fun ⟨hi, ha⟩ => ⟨congrArg (· + 1) hi, ha⟩

/-- Rows for the first of some items and for the others. -/
theorem IsIndex.append (hh : IsIndex (fun a => R (0 :: a)) hs) (ht : IsIndex T ts)
    (hnil : ∀ e, ¬ R [] e) (htail : ∀ e, ¬ T [] e)
    (hR : ∀ i a e, R ((i + 1) :: a) e ↔ T (i :: a) e) :
    IsIndex R (hs.map inFirst ++ ts.map behindFirst) where
  sorted := by
    rw [List.map_append, List.map_map, List.map_map, List.pairwise_append]
    refine ⟨?_, ?_, ?_⟩
    · rw [List.pairwise_map]
      exact (List.pairwise_map.1 hh.sorted).imp fun hlt => List.cons_lt_cons_self.2 hlt
    · rw [List.pairwise_map]
      exact (List.pairwise_map.1 ht.sorted).imp shift_lt_shift
    · intro a ha b hb
      obtain ⟨⟨a, d⟩, -, rfl⟩ := List.mem_map.1 ha
      obtain ⟨⟨b, e⟩, hmem, rfl⟩ := List.mem_map.1 hb
      cases b with
      | nil => exact (htail e ((ht.mem_iff _ _).1 hmem)).elim
      | cons i b => exact List.cons_lt_cons_iff.2 (.inl (Nat.succ_pos i))
  mem_iff a e := by
    rw [List.mem_append, List.mem_map, List.mem_map]
    constructor
    · rintro (⟨⟨b, d⟩, hb, heq⟩ | ⟨⟨b, d⟩, hb, heq⟩)
      · cases heq
        exact (hh.mem_iff _ _).1 hb
      · cases heq
        cases b with
        | nil => exact (htail d ((ht.mem_iff _ _).1 hb)).elim
        | cons i b => exact (hR i b d).2 ((ht.mem_iff _ _).1 hb)
    · intro h
      match a with
      | [] => exact (hnil e h).elim
      | 0 :: a => exact .inl ⟨(a, e), (hh.mem_iff _ _).2 h, rfl⟩
      | (i + 1) :: a => exact .inr ⟨(i :: a, e), (ht.mem_iff _ _).2 ((hR i a e).1 h), rfl⟩

theorem map_snd_rows (hs ts : List (List Nat × TypeDecl)) :
    (hs.map inFirst ++ ts.map behindFirst).map (·.2) = hs.map (·.2) ++ ts.map (·.2) := by
  rw [List.map_append, List.map_map, List.map_map]
  rfl

end Rows

section Declared

variable (file : String)

/-- What a type at an address in the body of another one is declared as. -/
def Nested (space : Option String) (containers : List String) (items : List Item) (a : List Nat)
    (d : TypeDecl) : Prop :=
  ∃ above form members, At items a above (.type form members) ∧
    (∀ x ∈ above, x.isSpace = false) ∧
      d = form.toDecl file space (containers ++ above.filterMap Item.typeName?) members

/-- What a type at an address is declared as. -/
def Declared (space : Option String) (items : List Item) (a : List Nat) (d : TypeDecl) : Prop :=
  ∃ above form members, At items a above (.type form members) ∧ IsOpen above ∧
    d = form.toDecl file (spaceAt space items a) (above.filterMap Item.typeName?) members

variable {file} {space : Option String} {containers : List String} {items : List Item}
  {d : TypeDecl}

theorem not_nested_nil {a : List Nat} : ¬ Nested file space containers [] a d := by
  rintro ⟨_, _, _, h, -⟩
  exact not_at_nil h

theorem not_declared_nil {a : List Nat} : ¬ Declared file space [] a d := by
  rintro ⟨_, _, _, h, -⟩
  exact not_at_nil h

theorem not_nested_nil_address : ¬ Nested file space containers items [] d := by
  rintro ⟨_, _, _, h, -⟩
  exact not_at_nil_address h

theorem nested_cons_succ {item : Item} {i : Nat} {a : List Nat} :
    Nested file space containers (item :: items) ((i + 1) :: a) d ↔
      Nested file space containers items (i :: a) d := by
  simp only [Nested, at_cons_succ]

theorem type_eq_iff {form : TypeForm} {members : List Item} :
    (∃ form' members', Item.type form members = .type form' members' ∧
      d = form'.toDecl file space containers members') ↔
        d = form.toDecl file space containers members := by
  constructor
  · rintro ⟨_, _, heq, rfl⟩
    cases heq
    rfl
  · exact fun h => ⟨form, members, rfl, h⟩

theorem nested_cons_here {item : Item} :
    Nested file space containers (item :: items) [0] d ↔
      ∃ form members, item = .type form members ∧
        d = form.toDecl file space containers members := by
  constructor
  · rintro ⟨above, form, members, hat, -, rfl⟩
    rcases at_cons_zero.1 hat with ⟨-, rfl, rfl⟩ | ⟨rest, -, hat⟩
    · exact ⟨form, members, rfl, by rw [List.filterMap_nil, List.append_nil]⟩
    · exact (not_at_nil_address hat).elim
  · rintro ⟨form, members, rfl, rfl⟩
    exact ⟨[], form, members, .here rfl, nofun, by rw [List.filterMap_nil, List.append_nil]⟩

/-- Inside of an item the names of types around are those outside of it and its own. -/
theorem nested_cons_inside {item : Item} {i : Nat} {a : List Nat} :
    Nested file space containers (item :: items) (0 :: i :: a) d ↔
      item.isSpace = false ∧
        Nested file space (containers ++ item.typeName?.toList) item.body (i :: a) d := by
  have hnames (rest : List Item) : containers ++ (item :: rest).filterMap Item.typeName?
      = containers ++ item.typeName?.toList ++ rest.filterMap Item.typeName? := by
    rw [List.append_assoc, List.filterMap_cons]
    cases item.typeName? <;> rfl
  constructor
  · rintro ⟨above, form, members, hat, hspace, rfl⟩
    rcases at_cons_zero.1 hat with ⟨hnil, -⟩ | ⟨rest, rfl, hin⟩
    · cases hnil
    · rw [List.forall_mem_cons] at hspace
      exact ⟨hspace.1, rest, form, members, hin, hspace.2, by rw [hnames]⟩
  · rintro ⟨hitem, rest, form, members, hat, hspace, rfl⟩
    exact ⟨item :: rest, form, members, .inside rfl hat, List.forall_mem_cons.2 ⟨hitem, hspace⟩,
      by rw [hnames]⟩

/-- What is inside of an item that is no type is so as well without the item. -/
theorem nested_cons_block {item : Item} (hitem : item.typeName? = none) {a : List Nat} :
    Nested file space containers (item :: items) (0 :: a) d ↔
      item.isSpace = false ∧ Nested file space containers item.body a d := by
  cases a with
  | nil =>
    refine iff_of_false (fun h => ?_) fun h => not_nested_nil_address h.2
    obtain ⟨_, _, rfl, -⟩ := nested_cons_here.1 h
    cases hitem
  | cons i a => rw [nested_cons_inside, hitem, Option.toList_none, List.append_nil]

theorem not_declared_nil_address : ¬ Declared file space items [] d := by
  rintro ⟨_, _, _, h, -⟩
  exact not_at_nil_address h

theorem declared_cons_succ {item : Item} {i : Nat} {a : List Nat} :
    Declared file space (item :: items) ((i + 1) :: a) d ↔
      Declared file (spaceBehind space [item]) items (i :: a) d := by
  have hspace : spaceAt space (item :: items) ((i + 1) :: a)
      = spaceAt (spaceBehind space [item]) items (i :: a) := by
    have hbehind : spaceBehind space (item :: items.take i)
        = spaceBehind (spaceBehind space [item]) (items.take i) := by
      cases item <;> rfl
    rw [spaceAt, spaceAt, List.take_succ_cons, List.getElem?_cons_succ, hbehind]
  simp only [Declared, at_cons_succ, hspace]

theorem declared_cons_here {item : Item} :
    Declared file space (item :: items) [0] d ↔
      ∃ form members, item = .type form members ∧ d = form.toDecl file space [] members := by
  constructor
  · rintro ⟨above, form, members, hat, -, rfl⟩
    rcases at_cons_zero.1 hat with ⟨-, rfl, rfl⟩ | ⟨rest, -, hat⟩
    · exact ⟨form, members, rfl, rfl⟩
    · exact (not_at_nil_address hat).elim
  · rintro ⟨form, members, rfl, rfl⟩
    exact ⟨[], form, members, .here rfl, .nil, rfl⟩

/-- What is inside of a namespace without a name is not declared. -/
theorem not_declared_of_isNameless {item : Item} (hitem : item.isNameless = true) {a : List Nat} :
    ¬ Declared file space (item :: items) (0 :: a) d := by
  rintro ⟨above, form, members, hat, hopen, -⟩
  rcases at_cons_zero.1 hat with ⟨-, -, rfl⟩ | ⟨rest, rfl, -⟩
  · cases hitem
  · rw [hopen.named item List.mem_cons_self] at hitem
    cases hitem

/-- Inside of a type that is in no other one. -/
theorem declared_cons_type {form : TypeForm} {members : List Item} {i : Nat} {a : List Nat} :
    Declared file space (.type form members :: items) (0 :: i :: a) d ↔
      Nested file space [form.name] members (i :: a) d := by
  constructor
  · rintro ⟨above, inner, body, hat, hopen, rfl⟩
    rcases at_cons_zero.1 hat with ⟨hnil, -⟩ | ⟨rest, rfl, hin⟩
    · cases hnil
    · exact ⟨rest, inner, body, hin, IsOpen.cons_type.1 hopen, rfl⟩
  · rintro ⟨rest, inner, body, hat, hspace, rfl⟩
    exact ⟨.type form members :: rest, inner, body, .inside rfl hat, IsOpen.cons_type.2 hspace, rfl⟩

/-- Inside of an item that is no type, and no namespace without a name. -/
theorem declared_cons_block {item : Item} (hitem : item.typeName? = none)
    (hnamed : item.isNameless = false) {space' : Option String}
    (hspace : ∀ i a,
      spaceAt space (item :: items) (0 :: i :: a) = spaceAt space' item.body (i :: a))
    {a : List Nat} :
    Declared file space (item :: items) (0 :: a) d ↔ Declared file space' item.body a d := by
  have hnames (rest : List Item) :
      (item :: rest).filterMap Item.typeName? = rest.filterMap Item.typeName? :=
    List.filterMap_cons_none hitem
  cases a with
  | nil =>
    refine iff_of_false (fun h => ?_) not_declared_nil_address
    obtain ⟨_, _, rfl, -⟩ := declared_cons_here.1 h
    cases hitem
  | cons i a =>
    constructor
    · rintro ⟨above, form, members, hat, hopen, rfl⟩
      rcases at_cons_zero.1 hat with ⟨hnil, -⟩ | ⟨rest, rfl, hin⟩
      · cases hnil
      · obtain ⟨-, hrest⟩ := (IsOpen.cons_block hitem).1 hopen
        exact ⟨rest, form, members, hin, hrest, by rw [hnames, hspace]⟩
    · rintro ⟨rest, form, members, hat, hopen, rfl⟩
      exact ⟨item :: rest, form, members, .inside rfl hat,
        (IsOpen.cons_block hitem).2 ⟨hnamed, hopen⟩, by rw [hnames, hspace]⟩

end Declared

section Tables

variable {file : String} {space : Option String} {containers : List String} {items : List Item}
  {hs ts : List (List Nat × TypeDecl)}

theorem IsIndex.nested_cons {item : Item}
    (hh : IsIndex (fun a => Nested file space containers (item :: items) (0 :: a)) hs)
    (ht : IsIndex (Nested file space containers items) ts) :
    IsIndex (Nested file space containers (item :: items)) (hs.map inFirst ++ ts.map behindFirst) :=
  hh.append ht (fun _ => not_nested_nil_address) (fun _ => not_nested_nil_address)
    fun _ _ _ => nested_cons_succ

theorem IsIndex.declared_cons {item : Item}
    (hh : IsIndex (fun a => Declared file space (item :: items) (0 :: a)) hs)
    (ht : IsIndex (Declared file (spaceBehind space [item]) items) ts) :
    IsIndex (Declared file space (item :: items)) (hs.map inFirst ++ ts.map behindFirst) :=
  hh.append ht (fun _ => not_declared_nil_address) (fun _ => not_declared_nil_address)
    fun _ _ _ => declared_cons_succ

theorem IsIndex.nil {R : List Nat → TypeDecl → Prop} (h : ∀ a d, ¬ R a d) : IsIndex R [] :=
  ⟨.nil, fun a d => iff_of_false List.not_mem_nil (h a d)⟩

theorem IsIndex.congr {R T : List Nat → TypeDecl → Prop} (h : IsIndex T hs)
    (hR : ∀ a d, R a d ↔ T a d) : IsIndex R hs :=
  ⟨h.sorted, fun a d => (h.mem_iff a d).trans (hR a d).symm⟩

theorem IsIndex.leaf {item : Item} (hitem : item.typeName? = none) (hbody : item.body = []) :
    IsIndex (fun a => Declared file space (item :: items) (0 :: a)) [] := by
  refine .nil ?_
  rintro a d ⟨above, form, members, hat, -⟩
  rcases at_cons_zero.1 hat with ⟨-, -, rfl⟩ | ⟨rest, -, hin⟩
  · cases hitem
  · rw [hbody] at hin
    exact not_at_nil hin

/-- The types in the body of another one, with their addresses. -/
theorem exists_rows_nestedTypes (file : String) (space : Option String) (containers : List String)
    (items : List Item) :
    ∃ rows, rows.map (·.2) = nestedTypes file space containers items ∧
      IsIndex (Nested file space containers items) rows := by
  induction containers, items using nestedTypes.induct with
  | case1 containers => exact ⟨[], by rw [nestedTypes]; rfl, .nil fun _ _ => not_nested_nil⟩
  | case2 containers form members is ihmembers ih =>
    obtain ⟨hs, hdecls, hh⟩ := ihmembers
    obtain ⟨ts, htail, ht⟩ := ih
    have hroot : IsIndex (fun a => Nested file space containers (.type form members :: is) (0 :: a))
        (([], form.toDecl file space containers members) :: hs) :=
      hh.root (fun _ => not_nested_nil_address) (fun _ => nested_cons_here.trans type_eq_iff)
        fun _ _ _ => nested_cons_inside.trans (and_iff_right rfl)
    exact ⟨_, by rw [map_snd_rows, List.map_cons, hdecls, htail, nestedTypes]; rfl,
      hroot.nested_cons ht⟩
  | case3 containers body is ihbody ih =>
    obtain ⟨hs, hdecls, hh⟩ := ihbody
    obtain ⟨ts, htail, ht⟩ := ih
    have hblock : IsIndex (fun a => Nested file space containers (.conditional body :: is) (0 :: a))
        hs := hh.congr fun _ _ => (nested_cons_block rfl).trans (and_iff_right rfl)
    exact ⟨_, by rw [map_snd_rows, hdecls, htail, nestedTypes], hblock.nested_cons ht⟩
  | case4 containers item is htype hbody ih =>
    obtain ⟨ts, htail, ht⟩ := ih
    have hnone : IsIndex (fun a => Nested file space containers (item :: is) (0 :: a)) [] := by
      refine .nil fun a d h => ?_
      cases item with
      | type => exact htype _ _ rfl
      | conditional => exact hbody _ rfl
      | spaceBlock => cases ((nested_cons_block rfl).1 h).1
      | _ => exact not_nested_nil ((nested_cons_block rfl).1 h).2
    refine ⟨_, ?_, hnone.nested_cons ht⟩
    rw [map_snd_rows, htail, nestedTypes]
    · rfl
    all_goals assumption

/-- The types among items, with their addresses. -/
theorem exists_rows_typesOf (file : String) (space : Option String) (items : List Item) :
    ∃ rows, rows.map (·.2) = typesOf file space items ∧
      IsIndex (Declared file space items) rows := by
  induction space, items using typesOf.induct with
  | case1 space => exact ⟨[], by rw [typesOf]; rfl, .nil fun _ _ => not_declared_nil⟩
  | case2 space form members is ih =>
    obtain ⟨hs, hdecls, hh⟩ := exists_rows_nestedTypes file space [form.name] members
    obtain ⟨ts, htail, ht⟩ := ih
    have hroot : IsIndex (fun a => Declared file space (.type form members :: is) (0 :: a))
        (([], form.toDecl file space [] members) :: hs) :=
      hh.root (fun _ => not_nested_nil_address) (fun _ => declared_cons_here.trans type_eq_iff)
        fun _ _ _ => declared_cons_type
    exact ⟨_, by rw [map_snd_rows, List.map_cons, hdecls, htail, typesOf]; rfl,
      hroot.declared_cons ht⟩
  | case3 space name body is ihbody ih =>
    obtain ⟨hs, hdecls, hh⟩ := ihbody
    obtain ⟨ts, htail, ht⟩ := ih
    by_cases hname : isNamed name = true
    · have hnamed : (Item.spaceBlock name body).isNameless = false := by
        rw [Item.isNameless, hname, Bool.not_true]
      exact ⟨_, by rw [map_snd_rows, hdecls, htail, typesOf, if_pos hname],
        (hh.congr fun _ _ => declared_cons_block rfl hnamed fun _ _ => rfl).declared_cons ht⟩
    · have hnameless : (Item.spaceBlock name body).isNameless = true := by
        rw [Item.isNameless, Bool.eq_false_iff.2 hname, Bool.not_false]
      have hnone : IsIndex
          (fun a => Declared file space (.spaceBlock name body :: is) (0 :: a)) [] :=
        .nil fun _ _ => not_declared_of_isNameless hnameless
      exact ⟨_, by rw [map_snd_rows, htail, typesOf, if_neg hname]; rfl, hnone.declared_cons ht⟩
  | case4 space name is ih =>
    obtain ⟨ts, htail, ht⟩ := ih
    exact ⟨_, by rw [map_snd_rows, htail, typesOf]; rfl,
      (IsIndex.leaf rfl rfl).declared_cons ht⟩
  | case5 space body is ihbody ih =>
    obtain ⟨hs, hdecls, hh⟩ := ihbody
    obtain ⟨ts, htail, ht⟩ := ih
    exact ⟨_, by rw [map_snd_rows, hdecls, htail, typesOf],
      (hh.congr fun _ _ => declared_cons_block rfl rfl fun _ _ => rfl).declared_cons ht⟩
  | case6 space item is htype hblock hline hbody ih =>
    obtain ⟨ts, htail, ht⟩ := ih
    have hleaf : item.typeName? = none ∧ item.body = [] ∧ spaceBehind space [item] = space := by
      cases item with
      | type => exact (htype _ _ rfl).elim
      | spaceBlock => exact (hblock _ _ rfl).elim
      | spaceLine => exact (hline _ rfl).elim
      | conditional => exact (hbody _ rfl).elim
      | _ => exact ⟨rfl, rfl, rfl⟩
    obtain ⟨hitem, hnil, hspace⟩ := hleaf
    refine ⟨_, ?_, (IsIndex.leaf hitem hnil).declared_cons (hspace.symm ▸ ht)⟩
    rw [map_snd_rows, htail, typesOf]
    · rfl
    all_goals assumption

end Tables

section Containers

variable {file : String} {space : Option String} {items : List Item} {a b : List Nat}

/-- That a type is the one nearest around an address. -/
def IsAround (items : List Item) (b a : List Nat) : Prop :=
  ∃ above form members between x, At items a (above ++ .type form members :: between) x ∧
    (∀ y ∈ between, y.typeName? = none) ∧ b = a.take (above.length + 1)

theorem lt_append_cons (i : Nat) (rest : List Nat) : ∀ a : List Nat, a < a ++ i :: rest
  | [] => List.nil_lt_cons i rest
  | _ :: a => List.cons_lt_cons_self.2 (lt_append_cons i rest a)

theorem IsAround.lt (h : IsAround items b a) : b < a := by
  obtain ⟨above, form, members, between, x, hat, -, rfl⟩ := h
  have hlength := length_at hat
  rw [List.length_append, List.length_cons] at hlength
  obtain ⟨i, rest, hdrop⟩ := List.exists_cons_of_ne_nil
    (show a.drop (above.length + 1) ≠ [] by rw [ne_eq, List.drop_eq_nil_iff]; omega)
  conv_rhs => rw [← List.take_append_drop (above.length + 1) a, hdrop]
  exact lt_append_cons i rest _

theorem fullName_concat {d e : TypeDecl} (hspace : e.space = d.space)
    (hcontainers : d.containers = e.containers ++ [e.name]) :
    d.fullName = e.fullName ++ "." ++ d.name := by
  rw [TypeDecl.fullName, TypeDecl.fullName, hspace, hcontainers, ← List.append_assoc,
    String.intercalate_append_of_ne_nil (by simp) (by simp), String.intercalate_singleton]

/-- The last name among a type's containers is that of the type nearest around it. -/
theorem Declared.exists_around {d : TypeDecl} {c : List String} {o : String}
    (h : Declared file space items a d) (hc : d.containers = c ++ [o]) :
    ∃ b e, Declared file space items b e ∧ IsAround items b a ∧ e.name = o ∧ e.containers = c ∧
      e.space = d.space := by
  obtain ⟨above, form, members, hat, hopen, rfl⟩ := h
  obtain ⟨before, others, rfl, hbefore, hothers⟩ := List.filterMap_eq_append_iff.1 hc
  obtain ⟨between, outer, after, rfl, hbetween, houter, hafter⟩ :=
    List.filterMap_eq_cons_iff.1 hothers
  rw [← List.append_assoc] at hat hopen
  cases outer with
  | type form' members' =>
    cases houter
    have hnames : (before ++ between).filterMap Item.typeName? = c := by
      rw [List.filterMap_append, hbefore, List.filterMap_eq_nil_iff.2 hbetween, List.append_nil]
    have hbefore : IsOpen (before ++ between) := hopen.sublist (List.sublist_append_left _ _)
    refine ⟨_, _, ⟨_, form', members', at_take hat, hbefore, rfl⟩,
      ⟨_, form', members', after, _, hat, List.filterMap_eq_nil_iff.1 hafter, rfl⟩, rfl, hnames, ?_⟩
    exact spaceAt_take hat
  | _ => cases houter

end Containers

end Source

/-- The types of a file are those that stand somewhere in its tree with no namespace inside of a
type around them and none without a name, each once and in the order of the document. What is
declared inside of another type has it before itself. -/
theorem SourceFile.types_exact (path : String) (tree : Tree) :
    ∃ rows : List (List Nat × TypeDecl),
      rows.map (·.2) = (SourceFile.ofTree path tree).types ∧
      (rows.map (·.1)).Pairwise (· < ·) ∧
      (∀ a, a ∈ rows.map (·.1) ↔
        ∃ above form members, At tree.items a above (.type form members) ∧ IsOpen above) ∧
      (∀ a d, (a, d) ∈ rows → Declared path none tree.items a d) ∧
      ∀ before a d after, rows = before ++ (a, d) :: after → ∀ c o, d.containers = c ++ [o] →
        ∃ b e, (b, e) ∈ before ∧ IsAround tree.items b a ∧ e.name = o ∧ e.containers = c ∧
          e.space = d.space ∧ d.fullName = e.fullName ++ "." ++ d.name := by
  obtain ⟨rows, hdecls, hrows⟩ := exists_rows_typesOf path none tree.items
  refine ⟨rows, hdecls, hrows.sorted, fun a => ?_, fun a d => (hrows.mem_iff a d).1, ?_⟩
  · rw [List.mem_map]
    constructor
    · rintro ⟨⟨a, d⟩, hrow, rfl⟩
      obtain ⟨above, form, members, hat, hopen, -⟩ := (hrows.mem_iff a d).1 hrow
      exact ⟨above, form, members, hat, hopen⟩
    · rintro ⟨above, form, members, hat, hopen⟩
      exact ⟨(a, _), (hrows.mem_iff a _).2 ⟨above, form, members, hat, hopen, rfl⟩, rfl⟩
  · rintro before a d after rfl c o hc
    have hd : Declared path none tree.items a d := (hrows.mem_iff a d).1 (by simp)
    obtain ⟨b, e, he, haround, hname, hcontainers, hspace⟩ := hd.exists_around hc
    refine ⟨b, e, ?_, haround, hname, hcontainers, hspace, fullName_concat hspace ?_⟩
    · have hsorted := hrows.sorted
      rw [List.map_append, List.map_cons, List.pairwise_append, List.pairwise_cons] at hsorted
      rcases List.mem_append.1 ((hrows.mem_iff b e).2 he) with hmem | hmem
      · exact hmem
      · rcases List.mem_cons.1 hmem with heq | hmem
        · cases heq
          exact (List.lt_irrefl _ haround.lt).elim
        · exact (List.lt_asymm haround.lt (hsorted.2.1.1 b (List.mem_map_of_mem hmem))).elim
    · rw [hc, hname, hcontainers]

/-- A class in a namespace that stands in another class. -/
def spaceInClass : Tree :=
  ⟨[.type ⟨"A", .class, 0, [], [], [], ⟨.zero, .zero⟩⟩
    [.spaceBlock "N" [.type ⟨"B", .class, 0, [], [], [], ⟨.zero, .zero⟩⟩ []]]], none⟩

/-- A class in a namespace whose name is missing. -/
def namelessSpace : Tree :=
  ⟨[.spaceBlock "" [.type ⟨"B", .class, 0, [], [], [], ⟨.zero, .zero⟩⟩ []]], none⟩

/-- Each time a class stands in the tree, and all around it are namespaces and types. -/
theorem SourceFile.types_spaceInClass :
    ((∃ above form, At spaceInClass.items [0, 0, 0] above (.type form []) ∧ form.name = "B" ∧
        ∀ x ∈ above, x.isSpace = true ∨ x.typeName?.isSome = true) ∧
      (SourceFile.ofTree "A.cs" spaceInClass).types.map (·.name) = ["A"]) ∧
    (∃ above form, At namelessSpace.items [0, 0] above (.type form []) ∧ form.name = "B" ∧
        ∀ x ∈ above, x.isSpace = true) ∧
      (SourceFile.ofTree "A.cs" namelessSpace).types = [] := by
  refine ⟨⟨⟨_, _, .inside rfl (.inside rfl (.here rfl)), rfl, ?_⟩, ?_⟩,
    ⟨_, _, .inside rfl (.here rfl), rfl, ?_⟩, ?_⟩
  · rw [List.forall_mem_cons, List.forall_mem_singleton]
    exact ⟨.inr rfl, .inl rfl⟩
  · simp only [SourceFile.ofTree, spaceInClass, typesOf, nestedTypes]
    rfl
  · rw [List.forall_mem_singleton]
    rfl
  · have hname : isNamed "" = false := by decide
    simp [SourceFile.ofTree, namelessSpace, typesOf, hname]

end TaskWrappers
