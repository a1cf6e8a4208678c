import TaskWrappers.Symbol

/-!
# What a resolution asks

The names that a resolution asks about as aliases, one after the other, and how it goes on after
each answer (`Model.inquire`). Where all answers come it is the resolution under them
(`Model.run_inquire`). Where they may fail to come, it has a result exactly if they come for the
names that it asks about (`Inquiry.runWithin_eq_some`, `Inquiry.exists_of_runWithin`).
-/

namespace TaskWrappers

/-- A computation that asks what aliases stand for, and fails once one stands for nothing. -/
inductive Inquiry (α : Type) where
  | done (result : Option α)
  | ask (name : String) (next : Symbol → Inquiry α)

namespace Inquiry

variable {α β : Type}

def bind : Inquiry α → (α → Inquiry β) → Inquiry β
  | done none, _ => done none
  | done (some a), k => k a
  | ask name next, k => ask name fun sym => (next sym).bind k

def map (f : α → β) (i : Inquiry α) : Inquiry β := i.bind fun a => done (some (f a))

/-- The result under the given answers. -/
def run (aliased? : String → Option Symbol) : Inquiry α → Option α
  | done result => result
  | ask name next => (aliased? name).bind fun sym => (next sym).run aliased?

/-- The names that are asked about under the given answers. -/
def asked (aliased? : String → Option Symbol) : Inquiry α → List String
  | done _ => []
  | ask name next =>
    name ::
      match aliased? name with
      | none => []
      | some sym => (next sym).asked aliased?

/-- The result where an answer may fail to come, in which case none comes. -/
def runWithin (answer? : String → Option (Option Symbol)) : Inquiry α → Option (Option α)
  | done result => some result
  | ask name next =>
    match answer? name with
    | none => none
    | some none => some none
    | some (some sym) => (next sym).runWithin answer?

variable {aliased? : String → Option Symbol} {answer? : String → Option (Option Symbol)}

theorem run_bind (k : α → Inquiry β) : ∀ i : Inquiry α,
    (i.bind k).run aliased? = (i.run aliased?).bind fun a => (k a).run aliased?
  | done none => rfl
  | done (some _) => rfl
  | ask name next => by
    rw [bind, run, run]
    cases aliased? name with
    | none => rfl
    | some sym => exact run_bind k (next sym)

theorem run_map (f : α → β) (i : Inquiry α) : (i.map f).run aliased? = (i.run aliased?).map f := by
  rw [map, run_bind]
  cases i.run aliased? <;> rfl

/-- A result comes from right answers for all that is asked, if no answer is wrong. -/
theorem exists_of_runWithin
    (hright : ∀ name sym?, answer? name = some sym? → sym? = aliased? name) :
    ∀ {i : Inquiry α} {result : Option α}, i.runWithin answer? = some result →
      result = i.run aliased? ∧ ∀ name ∈ i.asked aliased?, answer? name = some (aliased? name)
  | done _, _, h => by
    cases h
    exact ⟨rfl, nofun⟩
  | ask name next, result, h => by
    rw [runWithin] at h
    rw [run, asked]
    cases hname : answer? name with
    | none =>
      rw [hname] at h
      cases h
    | some sym? =>
      have hsym := hright name sym? hname
      subst hsym
      rw [hname] at h
      cases hsym : aliased? name with
      | none =>
        rw [hsym] at h hname
        cases h
        refine ⟨rfl, fun other hother => ?_⟩
        rw [List.mem_singleton.1 hother, hsym]
        exact hname
      | some sym =>
        rw [hsym] at h hname
        obtain ⟨hresult, hrest⟩ := exists_of_runWithin hright h
        refine ⟨hresult, fun other hother => ?_⟩
        rcases List.mem_cons.1 hother with rfl | hother
        · rw [hsym]
          exact hname
        · exact hrest other hother

theorem runWithin_mono {more? : String → Option (Option Symbol)}
    (hmore : ∀ name sym?, answer? name = some sym? → more? name = some sym?) :
    ∀ {i : Inquiry α} {result : Option α}, i.runWithin answer? = some result →
      i.runWithin more? = some result
  | done _, _, h => h
  | ask name next, result, h => by
    rw [runWithin] at h ⊢
    cases hname : answer? name with
    | none =>
      rw [hname] at h
      cases h
    | some sym? =>
      rw [hname] at h
      rw [hmore name sym? hname]
      cases sym? with
      | none => exact h
      | some sym => exact runWithin_mono hmore h

end Inquiry

namespace Model

open Inquiry

section Inquire

variable (m : Model) (s : Scope)

def inquireNamed (qualifier : Option String) (outer : List Segment) (last : Segment)
    (args : List Symbol) : Inquiry Symbol :=
  if outer.any Segment.isGeneric then .done none
  else
    match m.known? s qualifier (Scope.dotted ((outer ++ [last]).map Segment.name)) args.length with
    | some t => .done (some (.ofKnown t args))
    | none =>
      if qualifier.isNone && outer.isEmpty && !last.isGeneric then
        .ask last.name fun sym => .done (some sym)
      else .done none

mutual

/-- What the resolution of a type in a scope asks. -/
def inquire : TypeExpr → Inquiry Symbol
  | .keyword word => .done (Symbol.ofKeyword? word)
  | .named qualifier outer (.plain name) => inquireNamed m s qualifier outer (.plain name) []
  | .named qualifier outer (.generic name first rest) =>
    (inquireArg first).bind fun arg => (inquireArgs rest).bind fun args =>
      inquireNamed m s qualifier outer (.generic name first rest) (arg :: args)
  | .nullable inner => (inquire inner).map .toNullable
  | .array element commas => (inquire element).map (.arrayOf · commas)
  | .tuple first second rest =>
    (inquireElement first).bind fun a => (inquireElement second).bind fun b =>
      (inquireElements rest).map fun more => .tupleOf (a :: b :: more)

def inquireArg : TypeArg → Inquiry Symbol
  | .omitted => .done none
  | .given type => inquire type

def inquireArgs : List TypeArg → Inquiry (List Symbol)
  | [] => .done (some [])
  | arg :: args => (inquireArg arg).bind fun a => (inquireArgs args).map (a :: ·)

def inquireElement : TupleElement → Inquiry String
  | ⟨type, name⟩ => (inquire type).map fun t =>
    match name with
    | none => t.display
    | some n => t.display ++ " " ++ n

def inquireElements : List TupleElement → Inquiry (List String)
  | [] => .done (some [])
  | e :: es => (inquireElement e).bind fun d => (inquireElements es).map (d :: ·)

end

variable {m s} {aliased? : String → Option Symbol}

theorem run_inquireNamed (qualifier : Option String) (outer : List Segment) (last : Segment)
    (args : List Symbol) :
    (inquireNamed m s qualifier outer last args).run aliased?
      = named aliased? m s qualifier outer last args := by
  unfold inquireNamed named
  split
  · rfl
  · cases m.known? s qualifier (Scope.dotted ((outer ++ [last]).map Segment.name)) args.length with
    | some t => rfl
    | none =>
      dsimp only
      split
      · rw [run]
        cases aliased? last.name <;> rfl
      · rfl

mutual

/-- Asking for aliases is all that a resolution depends on. -/
theorem run_inquire : ∀ type : TypeExpr,
    (inquire m s type).run aliased? = resolveWith aliased? m s type
  | .keyword word => by rw [inquire, resolveWith, run]
  | .named qualifier outer (.plain name) => by rw [inquire, resolveWith, run_inquireNamed]
  | .named qualifier outer (.generic name first rest) => by
    rw [inquire, resolveWith, run_bind, run_inquireArg first]
    refine congrArg _ (funext fun arg => ?_)
    rw [run_bind, run_inquireArgs rest]
    exact congrArg _ (funext fun args => run_inquireNamed ..)
  | .nullable inner => by rw [inquire, resolveWith, run_map, run_inquire inner]
  | .array element commas => by rw [inquire, resolveWith, run_map, run_inquire element]
  | .tuple first second rest => by
    rw [inquire, resolveWith, run_bind, run_inquireElement first]
    refine congrArg _ (funext fun a => ?_)
    rw [run_bind, run_inquireElement second]
    refine congrArg _ (funext fun b => ?_)
    rw [run_map, run_inquireElements rest]
    cases displayElements aliased? m s rest <;> rfl

theorem run_inquireArg : ∀ arg : TypeArg,
    (inquireArg m s arg).run aliased? = resolveArg aliased? m s arg
  | .omitted => by rw [inquireArg, resolveArg, run]
  | .given type => by rw [inquireArg, resolveArg, run_inquire type]

theorem run_inquireArgs : ∀ args : List TypeArg,
    (inquireArgs m s args).run aliased? = resolveArgs aliased? m s args
  | [] => by rw [inquireArgs, resolveArgs, run]
  | arg :: args => by
    rw [inquireArgs, resolveArgs, run_bind, run_inquireArg arg]
    refine congrArg _ (funext fun a => ?_)
    rw [run_map, run_inquireArgs args]
    cases resolveArgs aliased? m s args <;> rfl

theorem run_inquireElement : ∀ e : TupleElement,
    (inquireElement m s e).run aliased? = displayElement aliased? m s e
  | ⟨type, name⟩ => by
    rw [inquireElement, displayElement, ← run_inquire type]
    exact run_map _ _

theorem run_inquireElements : ∀ es : List TupleElement,
    (inquireElements m s es).run aliased? = displayElements aliased? m s es
  | [] => by rw [inquireElements, displayElements, run]
  | e :: es => by
    rw [inquireElements, displayElements, run_bind, run_inquireElement e]
    refine congrArg _ (funext fun d => ?_)
    rw [run_map, run_inquireElements es]
    cases displayElements aliased? m s es <;> rfl

end

end Inquire

end Model

end TaskWrappers
