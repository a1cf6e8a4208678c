import TaskWrappers.TypeExpr.Token

/-!
# Reading type expressions

A type is a primary followed by any number of `?` and bracket pairs, so that `int?[]` is an array
of nullable integers. The number handed down bounds how deep types nest; the number of tokens is
always enough, because every level reads one of its own.
-/

namespace TaskWrappers.TypeExpr

open TypeToken

/-- The first token must be `t`. -/
def expect (t : TypeToken) : List TypeToken → Except TypeError (List TypeToken)
  | [] => .error (.expected t none)
  | u :: ts => if u = t then .ok ts else .error (.expected t (some u))

/-- The commas of an array's rank, after its opening bracket. -/
def readRank (commas : Nat) : List TypeToken → Except TypeError (Nat × List TypeToken)
  | rightBracket :: ts => .ok (commas, ts)
  | comma :: ts => readRank (commas + 1) ts
  | ts => (expect rightBracket ts).map ((commas, ·))

theorem length_expect {t : TypeToken} {ts rest : List TypeToken} (h : expect t ts = .ok rest) :
    rest.length < ts.length := by
  cases ts with
  | nil => simp [expect] at h
  | cons u us =>
    simp only [expect] at h
    split at h
    · cases h; simp
    · cases h

theorem length_readRank {n m : Nat} {ts rest : List TypeToken} (h : readRank n ts = .ok (m, rest)) :
    rest.length < ts.length := by
  induction ts generalizing n with
  | nil => simp [readRank, expect, Except.map] at h
  | cons u us ih =>
    unfold readRank at h
    split at h
    · simp_all
    · simp_all only [List.cons.injEq, List.length_cons]
      exact Nat.lt_succ_of_lt (ih h)
    · rename_i h1 h2
      cases he : expect rightBracket (u :: us) with
      | error e => simp [he, Except.map] at h
      | ok r =>
        simp only [he, Except.map, Except.ok.injEq, Prod.mk.injEq] at h
        obtain ⟨-, rfl⟩ := h
        exact length_expect he

/-- The marks after a primary, in the order written. -/
def readMarks (t : TypeExpr) (ts : List TypeToken) : Except TypeError (TypeExpr × List TypeToken) :=
  match ts with
  | question :: ts => readMarks (.nullable t) ts
  | leftBracket :: ts =>
    match _hr : readRank 0 ts with
    | .error e => .error e
    | .ok (commas, ts') => readMarks (.array t commas) ts'
  | ts => .ok (t, ts)
termination_by ts.length
decreasing_by
  · simp
  · have := length_readRank _hr; simp; omega

/-- How types are read where they nest. -/
abbrev TypeReader := List TypeToken → Except TypeError (TypeExpr × List TypeToken)

/-- One type argument, left out where a comma or the closing bracket follows at once. -/
def readArg (type : TypeReader) (ts : List TypeToken) :
    Except TypeError (TypeArg × List TypeToken) :=
  match ts with
  | comma :: _ => .ok (.omitted, ts)
  | greater :: _ => .ok (.omitted, ts)
  | _ => (type ts).map fun (t, ts) => (.given t, ts)

/-- The arguments after the first, each behind a comma, and the closing bracket. -/
def readArgs (type : TypeReader) :
    Nat → List TypeToken → Except TypeError (List TypeArg × List TypeToken)
  | n + 1, comma :: ts => do
    let (arg, ts) ← readArg type ts
    let (args, ts) ← readArgs type n ts
    return (arg :: args, ts)
  | _, ts => (expect greater ts).map (([], ·))

def readSegment (type : TypeReader) (n : Nat) :
    List TypeToken → Except TypeError (Segment × List TypeToken)
  | name word :: less :: ts => do
    let (first, ts) ← readArg type ts
    let (rest, ts) ← readArgs type n ts
    return (.generic word first rest, ts)
  | name word :: ts => .ok (.plain word, ts)
  | ts => .error (.expectedName ts.head?)

/-- The segments of a name up to the last one. -/
def readSegments (type : TypeReader) :
    Nat → List TypeToken → Except TypeError (List Segment × Segment × List TypeToken)
  | 0, ts => .error (.expectedName ts.head?)
  | n + 1, ts => do
    let (segment, ts) ← readSegment type n ts
    match ts with
    | dot :: ts =>
      let (outer, last, ts) ← readSegments type n ts
      return (segment :: outer, last, ts)
    | ts => return ([], segment, ts)

def readElement (type : TypeReader) (ts : List TypeToken) :
    Except TypeError (TupleElement × List TypeToken) := do
  let (t, ts) ← type ts
  match ts with
  | name word :: ts => return (⟨t, some word⟩, ts)
  | ts => return (⟨t, none⟩, ts)

/-- The elements after the first, each behind a comma, and the closing parenthesis. -/
def readElements (type : TypeReader) :
    Nat → List TypeToken → Except TypeError (List TupleElement × List TypeToken)
  | n + 1, comma :: ts => do
    let (element, ts) ← readElement type ts
    let (elements, ts) ← readElements type n ts
    return (element :: elements, ts)
  | _, ts => (expect rightParen ts).map (([], ·))

/-- A name's qualifier, where two colons follow its first word. -/
def readQualifier : List TypeToken → Option String × List TypeToken
  | name word :: colons :: ts => (some word, ts)
  | ts => (none, ts)

def readType : Nat → TypeReader
  | 0, ts => .error (.expectedType ts.head?)
  | n + 1, ts =>
    match ts with
    | leftParen :: ts => do
      let (first, ts) ← readElement (readType n) ts
      let (rest, ts) ← readElements (readType n) n ts
      match rest with
      | [] => throw .shortTuple
      | second :: rest => readMarks (.tuple first second rest) ts
    | name word :: rest =>
      if word ∈ keywords then readMarks (.keyword word) rest
      else do
        let (qualifier, ts) := readQualifier ts
        let (outer, last, ts) ← readSegments (readType n) (n + 1) ts
        readMarks (.named qualifier outer last) ts
    | ts => .error (.expectedType ts.head?)

/-- The type a text denotes, all of its tokens used. -/
def read (text : String) : Except TypeError TypeExpr := do
  let tokens ← scan text.toList
  let (type, rest) ← readType (tokens.length + 1) tokens
  match rest with
  | [] => return type
  | rest => throw (.trailing (tokens.length - rest.length))

end TaskWrappers.TypeExpr
