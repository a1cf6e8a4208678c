import TaskWrappers.Proofs.Directive

/-!
# Conditional blocks

What a conditional block encloses counts as if it stood there without the block, with one
exception: a namespace that ends in a semicolon covers the items up to the end of the block, and
without the block it would cover those after it as well. So taking a block away keeps all
directives and all types with everything but their namespaces, and it keeps the namespaces too
unless the block is outside of types, opens a namespace and is followed by a type
(`Gap.enclose_iff`). In a namespace without a name nothing is declared, with the block or without.
-/

namespace TaskWrappers

/-- A declaration without its namespace. -/
def TypeDecl.spaceless (d : TypeDecl) : TypeDecl := { d with space := none }

namespace Source

/-- A place in the items of a tree where further items can stand. -/
inductive Gap where
  | here (before after : List Item)
  | inSpace (before : List Item) (name : String) (gap : Gap) (after : List Item)
  | inConditional (before : List Item) (gap : Gap) (after : List Item)
  | inType (before : List Item) (form : TypeForm) (gap : Gap) (after : List Item)

namespace Gap

/-- The whole tree with the given items in the gap. -/
def fill (items : List Item) : Gap → List Item
  | here before after => before ++ (items ++ after)
  | inSpace before name gap after => before ++ .spaceBlock name (gap.fill items) :: after
  | inConditional before gap after => before ++ .conditional (gap.fill items) :: after
  | inType before form gap after => before ++ .type form (gap.fill items) :: after

/-- Whether the gap is in the body of a type. -/
def isInType : Gap → Bool
  | here .. => false
  | inSpace _ _ gap _ => gap.isInType
  | inConditional _ gap _ => gap.isInType
  | inType .. => true

/-- Whether the gap is in a namespace without a name, outside of types. -/
def isPassedOver : Gap → Bool
  | here .. => false
  | inSpace _ name gap _ => !isNamed name || gap.isPassedOver
  | inConditional _ gap _ => gap.isPassedOver
  | inType .. => false

/-- The items that follow in the same list. -/
def after : Gap → List Item
  | here _ after => after
  | inSpace _ _ gap _ => gap.after
  | inConditional _ gap _ => gap.after
  | inType _ _ gap _ => gap.after

end Gap

/-- The namespace that is open behind items. -/
def spaceBehind (space : Option String) : List Item → Option String
  | [] => space
  | .spaceLine name :: is => spaceBehind (openedSpace space name) is
  | _ :: is => spaceBehind space is

/-- Whether one of the items opens a namespace for all that follow. -/
def opensSpace : List Item → Bool
  | [] => false
  | .spaceLine name :: is => isNamed name || opensSpace is
  | _ :: is => opensSpace is

/-- How much is written of a namespace, with the dot that separates it. -/
def spaceLength (space : Option String) : Nat := (space.map (·.length + 1)).getD 0

theorem spaceLength_some (space : String) : spaceLength (some space) = space.length + 1 := rfl

theorem length_joinSpace (space : Option String) (inner : String) :
    (joinSpace space inner).length = spaceLength space + inner.length := by
  cases space with
  | none => exact (Nat.zero_add _).symm
  | some o =>
    rw [joinSpace, String.length_append, String.length_append]
    rfl

theorem joinSpace_inj {space space' : Option String} {inner : String}
    (h : joinSpace space inner = joinSpace space' inner) : space = space' := by
  have hlength := congrArg String.length h
  rw [length_joinSpace, length_joinSpace] at hlength
  cases space <;> cases space'
  · rfl
  · rw [spaceLength_some] at hlength
    change 0 + _ = _ at hlength
    omega
  · rw [spaceLength_some] at hlength
    change _ = 0 + _ at hlength
    omega
  · simp only [joinSpace, String.append_left_inj] at h
    rw [h]

theorem openedSpace_inj {space space' : Option String} {name : String}
    (h : openedSpace space name = openedSpace space' name) : space = space' := by
  rw [openedSpace, openedSpace] at h
  split at h
  · exact joinSpace_inj (Option.some_inj.1 h)
  · exact h

theorem spaceLength_le_openedSpace (space : Option String) (name : String) :
    spaceLength space + (if isNamed name then 1 else 0)
      ≤ spaceLength (openedSpace space name) := by
  rw [openedSpace]
  split
  · rw [spaceLength_some, length_joinSpace]
    omega
  · exact le_rfl

theorem spaceLength_le_spaceBehind (space : Option String) (items : List Item) :
    spaceLength space ≤ spaceLength (spaceBehind space items) := by
  induction space, items using spaceBehind.induct with
  | case2 space name is ih =>
    rw [spaceBehind]
    have hopened := spaceLength_le_openedSpace space name
    omega
  | _ => simp only [spaceBehind, *, le_refl]

/-- Behind items that open a namespace another one is open than before. -/
theorem spaceBehind_eq_iff (space : Option String) (items : List Item) :
    space = spaceBehind space items ↔ opensSpace items = false := by
  induction items generalizing space with
  | nil => exact iff_of_true rfl rfl
  | cons item items ih =>
    cases item with
    | spaceLine name =>
      rw [spaceBehind, opensSpace]
      by_cases hname : isNamed name = true
      · have hopened := spaceLength_le_openedSpace space name
        have hbehind := spaceLength_le_spaceBehind (openedSpace space name) items
        rw [if_pos hname] at hopened
        rw [hname, Bool.true_or]
        refine iff_of_false (fun h => ?_) nofun
        rw [← h] at hbehind
        omega
      · rw [openedSpace, if_neg hname, Bool.eq_false_iff.2 hname, Bool.false_or]
        exact ih space
    | _ => exact ih space

variable (file : String)

section Append

variable (items more : List Item)

theorem methodsOf_append :
    methodsOf file (items ++ more) = methodsOf file items ++ methodsOf file more := by
  induction items with
  | nil => rw [List.nil_append, methodsOf, List.nil_append]
  | cons item items ih =>
    rw [List.cons_append]
    cases item <;> simp only [methodsOf, ih, List.append_assoc, List.cons_append]

theorem constantsOf_append :
    constantsOf (items ++ more) = constantsOf items ++ constantsOf more := by
  induction items with
  | nil => rw [List.nil_append, constantsOf, List.nil_append]
  | cons item items ih =>
    rw [List.cons_append]
    cases item <;> simp only [constantsOf, ih, List.append_assoc]

theorem nestedTypes_append (space : Option String) (containers : List String) :
    nestedTypes file space containers (items ++ more)
      = nestedTypes file space containers items ++ nestedTypes file space containers more := by
  induction items with
  | nil => rw [List.nil_append, nestedTypes, List.nil_append]
  | cons item items ih =>
    rw [List.cons_append]
    cases item <;> simp only [nestedTypes, ih, List.append_assoc, List.cons_append]

theorem typesOf_append (space : Option String) :
    typesOf file space (items ++ more)
      = typesOf file space items ++ typesOf file (spaceBehind space items) more := by
  induction items generalizing space with
  | nil => rw [List.nil_append, typesOf, List.nil_append, spaceBehind]
  | cons item items ih =>
    rw [List.cons_append]
    cases item <;>
      simp only [typesOf, spaceBehind, ih, List.append_assoc, List.cons_append]

end Append

variable {file}

/-- The types among items without their namespaces do not depend on the namespace around them. -/
theorem map_spaceless_nestedTypes (space space' : Option String) (containers : List String)
    (items : List Item) :
    (nestedTypes file space containers items).map TypeDecl.spaceless
      = (nestedTypes file space' containers items).map TypeDecl.spaceless := by
  induction containers, items using nestedTypes.induct with
  | case1 => simp only [nestedTypes]
  | case2 containers form members is ihmembers ih =>
    rw [nestedTypes, nestedTypes, List.map_cons, List.map_cons, List.map_append, List.map_append,
      ihmembers, ih]
    rfl
  | case3 containers body is ihbody ih =>
    rw [nestedTypes, nestedTypes, List.map_append, List.map_append, ihbody, ih]
  | case4 => simp only [nestedTypes, *]

theorem map_spaceless_typesOf (space space' : Option String) (items : List Item) :
    (typesOf file space items).map TypeDecl.spaceless
      = (typesOf file space' items).map TypeDecl.spaceless := by
  induction space, items using typesOf.induct generalizing space' with
  | case1 => simp only [typesOf]
  | case2 space form members is ih =>
    rw [typesOf, typesOf, List.map_cons, List.map_cons, List.map_append, List.map_append,
      map_spaceless_nestedTypes space space', ih space']
    rfl
  | case3 space name body is ihbody ih =>
    rw [typesOf, typesOf, List.map_append, List.map_append, ih space']
    split
    · rw [ihbody]
    · rfl
  | case4 space name is ih =>
    rw [typesOf, typesOf]
    exact ih _
  | case5 space body is ihbody ih =>
    rw [typesOf, typesOf, List.map_append, List.map_append, ihbody, ih space']
  | case6 space item is htype hblock hline hbody ih =>
    rw [typesOf, typesOf, ih space'] <;> assumption

theorem length_typesOf (space space' : Option String) (items : List Item) :
    (typesOf file space items).length = (typesOf file space' items).length := by
  have hmap : (typesOf file space items).map TypeDecl.spaceless
      = (typesOf file space' items).map TypeDecl.spaceless :=
    map_spaceless_typesOf space space' items
  have hlength := congrArg List.length hmap
  rwa [List.length_map, List.length_map] at hlength

theorem typesOf_eq_nil_iff (space space' : Option String) {items : List Item} :
    typesOf file space items = [] ↔ typesOf file space' items = [] := by
  rw [← List.length_eq_zero_iff, length_typesOf space space', List.length_eq_zero_iff]

/-- Types tell the namespace that is open before them. -/
theorem space_eq_of_typesOf {space space' : Option String} {items : List Item}
    (h : typesOf file space items = typesOf file space' items)
    (htypes : typesOf file space items ≠ []) : space = space' := by
  induction space, items using typesOf.induct generalizing space' with
  | case1 space =>
    rw [typesOf] at htypes
    exact (htypes rfl).elim
  | case2 space form members is ih =>
    rw [typesOf, typesOf, List.cons.injEq] at h
    exact congrArg TypeDecl.space h.1
  | case3 space name body is ihbody ih =>
    rw [typesOf, typesOf] at h
    rw [typesOf] at htypes
    by_cases hname : isNamed name = true
    · rw [if_pos hname, if_pos hname] at h
      obtain ⟨hbody, his⟩ := List.append_inj h (length_typesOf _ _ _)
      rw [if_pos hname, ne_eq, List.append_eq_nil_iff, not_and_or] at htypes
      rcases htypes with htypes | htypes
      · exact openedSpace_inj (ihbody hbody htypes)
      · exact ih his htypes
    · rw [if_neg hname, if_neg hname, List.nil_append, List.nil_append] at h
      rw [if_neg hname, List.nil_append] at htypes
      exact ih h htypes
  | case4 space name is ih =>
    rw [typesOf, typesOf] at h
    rw [typesOf] at htypes
    exact openedSpace_inj (ih h htypes)
  | case5 space body is ihbody ih =>
    rw [typesOf, typesOf] at h
    obtain ⟨hbody, his⟩ := List.append_inj h (length_typesOf _ _ _)
    rw [typesOf, ne_eq, List.append_eq_nil_iff, not_and_or] at htypes
    rcases htypes with htypes | htypes
    · exact ihbody hbody htypes
    · exact ih his htypes
  | case6 space item is htype hblock hline hbody ih =>
    rw [typesOf, typesOf] at h <;> try assumption
    rw [typesOf] at htypes <;> try assumption
    exact ih h htypes

theorem typesOf_eq_iff {space space' : Option String} {items : List Item} :
    typesOf file space items = typesOf file space' items ↔
      space = space' ∨ typesOf file none items = [] := by
  constructor
  · intro h
    by_cases htypes : typesOf file space items = []
    · exact .inr ((typesOf_eq_nil_iff space none).1 htypes)
    · exact .inl (space_eq_of_typesOf h htypes)
  · rintro (rfl | htypes)
    · rfl
    · rw [(typesOf_eq_nil_iff space none).2 htypes, (typesOf_eq_nil_iff space' none).2 htypes]

namespace Gap

section Fill

variable (items before after : List Item) (gap : Gap)

theorem fill_here : (here before after).fill items = before ++ (items ++ after) := rfl

theorem fill_inSpace (name : String) : (inSpace before name gap after).fill items
    = before ++ .spaceBlock name (gap.fill items) :: after := rfl

theorem fill_inConditional : (inConditional before gap after).fill items
    = before ++ .conditional (gap.fill items) :: after := rfl

theorem fill_inType (form : TypeForm) : (inType before form gap after).fill items
    = before ++ .type form (gap.fill items) :: after := rfl

end Fill

variable (body : List Item) (gap : Gap)

theorem usingsOf_fill :
    usingsOf (gap.fill [.conditional body]) = usingsOf (gap.fill body) := by
  induction gap with
  | here before after =>
    simp only [fill_here, usingsOf_append, usingsOf, List.append_nil]
  | inSpace before name gap after ih | inConditional before gap after ih =>
    simp only [fill_inSpace, fill_inConditional, usingsOf_append, usingsOf, ih]
  | inType before form gap after ih =>
    simp only [fill_inType, usingsOf_append, usingsOf]

theorem methodsOf_fill :
    methodsOf file (gap.fill [.conditional body]) = methodsOf file (gap.fill body) := by
  induction gap with
  | here before after => simp only [fill_here, methodsOf_append, methodsOf, List.append_nil]
  | inConditional before gap after ih =>
    simp only [fill_inConditional, methodsOf_append, methodsOf, ih]
  | inSpace | inType => simp only [fill_inSpace, fill_inType, methodsOf_append, methodsOf]

theorem constantsOf_fill :
    constantsOf (gap.fill [.conditional body]) = constantsOf (gap.fill body) := by
  induction gap with
  | here before after => simp only [fill_here, constantsOf_append, constantsOf, List.append_nil]
  | inConditional before gap after ih =>
    simp only [fill_inConditional, constantsOf_append, constantsOf, ih]
  | inSpace | inType => simp only [fill_inSpace, fill_inType, constantsOf_append, constantsOf]

theorem nestedTypes_fill (space : Option String) (containers : List String) :
    nestedTypes file space containers (gap.fill [.conditional body])
      = nestedTypes file space containers (gap.fill body) := by
  induction gap generalizing containers with
  | here before after => simp only [fill_here, nestedTypes_append, nestedTypes, List.append_nil]
  | inConditional before gap after ih =>
    simp only [fill_inConditional, nestedTypes_append, nestedTypes, ih]
  | inSpace => simp only [fill_inSpace, nestedTypes_append, nestedTypes]
  | inType before form gap after ih =>
    simp only [fill_inType, nestedTypes_append, nestedTypes, TypeForm.toDecl, methodsOf_fill,
      constantsOf_fill, ih]

theorem typesOf_fill_iff (space : Option String) :
    typesOf file space (gap.fill [.conditional body]) = typesOf file space (gap.fill body) ↔
      gap.isInType = true ∨ gap.isPassedOver = true ∨ opensSpace body = false ∨
        typesOf file none gap.after = [] := by
  induction gap generalizing space with
  | here before after =>
    simp only [fill_here, isInType, isPassedOver, Gap.after, typesOf_append, typesOf,
      List.append_nil, spaceBehind, List.append_cancel_left_eq, Bool.false_eq_true, false_or]
    rw [typesOf_eq_iff, spaceBehind_eq_iff]
  | inSpace before name gap after ih =>
    simp only [fill_inSpace, isInType, isPassedOver, Gap.after, typesOf_append, typesOf,
      List.append_cancel_left_eq, List.append_cancel_right_eq]
    by_cases hname : isNamed name = true
    · rw [if_pos hname, if_pos hname, ih, hname, Bool.not_true, Bool.false_or]
    · rw [if_neg hname, if_neg hname, Bool.eq_false_iff.2 hname, Bool.not_false, Bool.true_or]
      exact iff_of_true rfl (.inr (.inl rfl))
  | inConditional before gap after ih =>
    simp only [fill_inConditional, isInType, isPassedOver, Gap.after, typesOf_append, typesOf,
      List.append_cancel_left_eq, List.append_cancel_right_eq, ih]
  | inType before form gap after ih =>
    simp only [fill_inType, typesOf_append, typesOf, TypeForm.toDecl, methodsOf_fill,
      constantsOf_fill, nestedTypes_fill, isInType, true_or]

theorem map_spaceless_fill (space : Option String) :
    (typesOf file space (gap.fill [.conditional body])).map TypeDecl.spaceless
      = (typesOf file space (gap.fill body)).map TypeDecl.spaceless := by
  induction gap generalizing space with
  | here before after =>
    simp only [fill_here, typesOf_append, typesOf, List.append_nil, spaceBehind, List.map_append]
    rw [map_spaceless_typesOf (spaceBehind (spaceBehind space before) body)
      (spaceBehind space before) after]
  | inSpace before name gap after ih =>
    simp only [fill_inSpace, typesOf_append, typesOf, List.map_append]
    split
    · rw [ih]
    · rfl
  | inConditional before gap after ih =>
    simp only [fill_inConditional, typesOf_append, typesOf, List.map_append, ih]
  | inType before form gap after ih =>
    simp only [fill_inType, typesOf_append, typesOf, TypeForm.toDecl, methodsOf_fill,
      constantsOf_fill, nestedTypes_fill]

/-- Without a conditional block around some of its items a file has the same directives and the
same types up to their namespaces. They are in the same namespaces as well exactly if the items are
in a type or in a namespace without a name, or open no namespace, or no type comes after them. -/
theorem enclose_iff (path : String) (damage : Option Extent) :
    (SourceFile.ofTree path ⟨gap.fill [.conditional body], damage⟩).usings
        = (SourceFile.ofTree path ⟨gap.fill body, damage⟩).usings ∧
      (SourceFile.ofTree path ⟨gap.fill [.conditional body], damage⟩).types.map TypeDecl.spaceless
        = (SourceFile.ofTree path ⟨gap.fill body, damage⟩).types.map TypeDecl.spaceless ∧
      ((SourceFile.ofTree path ⟨gap.fill [.conditional body], damage⟩).types
          = (SourceFile.ofTree path ⟨gap.fill body, damage⟩).types ↔
        gap.isInType = true ∨ gap.isPassedOver = true ∨ opensSpace body = false ∨
          typesOf path none gap.after = []) :=
  ⟨usingsOf_fill body gap, map_spaceless_fill body gap none, typesOf_fill_iff body gap none⟩

/-- A class behind a block that opens a namespace, in the file as a whole. -/
def behindBlock : Gap := .here [] [.type ⟨"A", .class, 0, [], [], [], ⟨.zero, .zero⟩⟩ []]

/-- The namespace ends with the block, and without the block it would cover the class. -/
theorem enclose_line :
    ((SourceFile.ofTree "A.cs" ⟨behindBlock.fill [.conditional [.spaceLine "App"]], none⟩).types.map
        TypeDecl.fullName) = ["A"] ∧
      ((SourceFile.ofTree "A.cs" ⟨behindBlock.fill [.spaceLine "App"], none⟩).types.map
        TypeDecl.fullName) = ["App.A"] := by
  simp only [SourceFile.ofTree, behindBlock, fill, List.nil_append, List.cons_append, typesOf,
    nestedTypes]
  exact ⟨rfl, rfl⟩

end Gap

end Source

end TaskWrappers
