import Mathlib.Data.List.Chain
import TaskWrappers.Proofs.TypeExpr.RoundTrip
import TaskWrappers.Proofs.TypeExpr.Spaceless

/-!
# Names next to each other in types

The name of a tuple's element is the only one that can follow another in a type, so that the tokens
of a type keep their names apart exactly if no element has its name right behind one
(`TypeExpr.apart_tokens`). A text whose tokens do so has no two names with only white space between
them (`TypeToken.spacedNames_of_scan`), and is read as the same type without its white space
(`TypeExpr.read_joined_iff`).
-/

namespace TaskWrappers

open Text TypeToken

/-- Whether a type is written with a name at its end. -/
def TypeExpr.endsInName : TypeExpr → Bool
  | .keyword _ => true
  | .named _ _ last => !last.isGeneric
  | .nullable _ => false
  | .array .. => false
  | .tuple .. => false

mutual

/-- Whether some element of a tuple in a type has its name right behind another one. -/
def TypeExpr.pairsNames : TypeExpr → Bool
  | .keyword _ => false
  | .named _ outer last => Segment.anyPairsNames outer || last.pairsNames
  | .nullable inner => inner.pairsNames
  | .array element _ => element.pairsNames
  | .tuple first second rest =>
    first.pairsNames || (second.pairsNames || TupleElement.anyPairsNames rest)

def Segment.pairsNames : Segment → Bool
  | .plain _ => false
  | .generic _ first rest => first.pairsNames || TypeArg.anyPairsNames rest

def Segment.anyPairsNames : List Segment → Bool
  | [] => false
  | s :: ss => s.pairsNames || Segment.anyPairsNames ss

def TypeArg.pairsNames : TypeArg → Bool
  | .omitted => false
  | .given type => type.pairsNames

def TypeArg.anyPairsNames : List TypeArg → Bool
  | [] => false
  | a :: as => a.pairsNames || TypeArg.anyPairsNames as

def TupleElement.pairsNames : TupleElement → Bool
  | ⟨type, none⟩ => type.pairsNames
  | ⟨type, some _⟩ => type.endsInName || type.pairsNames

def TupleElement.anyPairsNames : List TupleElement → Bool
  | [] => false
  | e :: es => e.pairsNames || TupleElement.anyPairsNames es

end

namespace TypeToken

def isNameToken : TypeToken → Bool
  | name _ => true
  | _ => false

/-- Tokens without two names in a row. -/
def Apart (ts : List TypeToken) : Prop :=
  ts.IsChain fun t u => t.isNameToken = true → u.isNameToken = false

variable {ts us : List TypeToken} {t : TypeToken}

theorem apart_nil : Apart [] := .nil

theorem apart_cons (ht : t.isNameToken = false) : Apart (t :: ts) ↔ Apart ts := by
  rw [Apart, List.isChain_cons]
  simp [ht, Apart]

theorem apart_name_cons (w : String) :
    Apart (name w :: ts) ↔ ts.head?.any isNameToken = false ∧ Apart ts := by
  rw [Apart, List.isChain_cons, ← Apart]
  cases ts with
  | nil => simp
  | cons u us => simp [isNameToken]

/-- Whatever is no name keeps what stands on its two sides apart. -/
theorem apart_append_cons (ht : t.isNameToken = false) :
    Apart (ts ++ t :: us) ↔ Apart ts ∧ Apart us := by
  rw [Apart, List.isChain_append, ← Apart, ← Apart, apart_cons ht]
  simp [ht]

theorem apart_append_name (w : String) :
    Apart (ts ++ [name w]) ↔ ts.getLast?.any isNameToken = false ∧ Apart ts := by
  rw [Apart, List.isChain_append, ← Apart]
  cases ts.getLast? with
  | none => simp
  | some u => simp [isNameToken, and_comm]

theorem apart_rank : ∀ commas : ℕ, Apart (List.replicate commas comma ++ [rightBracket])
  | 0 => (apart_cons rfl).2 apart_nil
  | n + 1 => (apart_cons rfl).2 (apart_rank n)

end TypeToken

theorem TypeExpr.getLast?_tokens (t : TypeExpr) :
    t.tokens.getLast?.any isNameToken = t.endsInName := by
  cases t with
  | keyword word => rfl
  | named qualifier outer last =>
    cases last with
    | plain word =>
      simp [TypeExpr.tokens, Segment.tokens, TypeExpr.endsInName, Segment.isGeneric, isNameToken]
    | generic word first rest =>
      simp [TypeExpr.tokens, Segment.tokens, TypeExpr.endsInName, Segment.isGeneric, isNameToken,
        List.getLast?_cons]
  | nullable inner => simp [TypeExpr.tokens, TypeExpr.endsInName, isNameToken]
  | array element commas =>
    simp [TypeExpr.tokens, TypeExpr.endsInName, isNameToken, List.getLast?_cons]
  | tuple first second rest =>
    simp [TypeExpr.tokens, TypeExpr.endsInName, isNameToken, List.getLast?_cons]

mutual

theorem TypeExpr.apart_tokens : ∀ t : TypeExpr, Apart t.tokens ↔ t.pairsNames = false
  | .keyword word => by simp [TypeExpr.tokens, TypeExpr.pairsNames, Apart]
  | .named qualifier outer last => by
    have hdotted := Segment.apart_dottedTokens outer last.tokens
    rw [Segment.apart_tokens last] at hdotted
    rw [TypeExpr.pairsNames, Bool.or_eq_false_iff, ← hdotted]
    cases qualifier with
    | none => exact Iff.rfl
    | some q => exact (apart_name_cons q).trans ((and_iff_right rfl).trans (apart_cons rfl))
  | .nullable inner => by
    rw [TypeExpr.tokens, TypeExpr.pairsNames, apart_append_cons rfl, TypeExpr.apart_tokens inner]
    exact and_iff_left .nil
  | .array element commas => by
    rw [TypeExpr.tokens, TypeExpr.pairsNames, apart_append_cons rfl, TypeExpr.apart_tokens element]
    exact and_iff_left (apart_rank commas)
  | .tuple first second rest => by
    have hrest := TupleElement.apart_restTokens rest second.tokens
    rw [TupleElement.apart_tokens second] at hrest
    rw [TypeExpr.tokens, TypeExpr.pairsNames, Bool.or_eq_false_iff, Bool.or_eq_false_iff, ← hrest,
      ← TupleElement.apart_tokens first, apart_cons rfl, List.append_assoc, List.cons_append,
      apart_append_cons rfl, List.append_assoc]

theorem Segment.apart_tokens : ∀ s : Segment, Apart s.tokens ↔ s.pairsNames = false
  | .plain word => by simp [Segment.tokens, Segment.pairsNames, Apart]
  | .generic word first rest => by
    have hrest := TypeArg.apart_restTokens rest first.tokens
    rw [TypeArg.apart_tokens first] at hrest
    rw [Segment.pairsNames, Bool.or_eq_false_iff, ← hrest, ← List.append_assoc]
    exact (apart_name_cons word).trans ((and_iff_right rfl).trans (apart_cons rfl))

theorem Segment.apart_dottedTokens : ∀ (ss : List Segment) (us : List TypeToken),
    Apart (Segment.dottedTokens ss ++ us) ↔ Segment.anyPairsNames ss = false ∧ Apart us
  | [], us => by
    rw [Segment.dottedTokens, Segment.anyPairsNames, and_iff_right rfl, List.nil_append]
  | s :: ss, us => by
    rw [Segment.dottedTokens, Segment.anyPairsNames, Bool.or_eq_false_iff, List.append_assoc,
      List.cons_append, apart_append_cons rfl, Segment.apart_tokens s,
      Segment.apart_dottedTokens ss us, and_assoc]

theorem TypeArg.apart_tokens : ∀ a : TypeArg, Apart a.tokens ↔ a.pairsNames = false
  | .omitted => by simp [TypeArg.tokens, TypeArg.pairsNames, Apart]
  | .given type => by rw [TypeArg.tokens, TypeArg.pairsNames, TypeExpr.apart_tokens type]

theorem TypeArg.apart_restTokens : ∀ (as : List TypeArg) (ts : List TypeToken),
    Apart (ts ++ (TypeArg.restTokens as ++ [.greater])) ↔
      Apart ts ∧ TypeArg.anyPairsNames as = false
  | [], ts => by
    rw [TypeArg.restTokens, TypeArg.anyPairsNames, List.nil_append, apart_append_cons rfl]
    exact and_congr_right fun _ => iff_of_true .nil rfl
  | a :: as, ts => by
    rw [TypeArg.restTokens, TypeArg.anyPairsNames, Bool.or_eq_false_iff, List.cons_append,
      apart_append_cons rfl, List.append_assoc, TypeArg.apart_restTokens as a.tokens,
      TypeArg.apart_tokens a]

theorem TupleElement.apart_tokens : ∀ e : TupleElement, Apart e.tokens ↔ e.pairsNames = false
  | ⟨type, none⟩ => by rw [TupleElement.tokens, TupleElement.pairsNames, TypeExpr.apart_tokens type]
  | ⟨type, some word⟩ => by
    rw [TupleElement.tokens, TupleElement.pairsNames, apart_append_name, TypeExpr.getLast?_tokens,
      TypeExpr.apart_tokens type, Bool.or_eq_false_iff]

theorem TupleElement.apart_restTokens : ∀ (es : List TupleElement) (ts : List TypeToken),
    Apart (ts ++ (TupleElement.restTokens es ++ [.rightParen])) ↔
      Apart ts ∧ TupleElement.anyPairsNames es = false
  | [], ts => by
    rw [TupleElement.restTokens, TupleElement.anyPairsNames, List.nil_append,
      apart_append_cons rfl]
    exact and_congr_right fun _ => iff_of_true .nil rfl
  | e :: es, ts => by
    rw [TupleElement.restTokens, TupleElement.anyPairsNames, Bool.or_eq_false_iff,
      List.cons_append, apart_append_cons rfl, List.append_assoc,
      TupleElement.apart_restTokens es e.tokens, TupleElement.apart_tokens e]

end

namespace TypeToken

variable {cs : List Char} {ts us : List TypeToken}

theorem runsOn_of_breaks (h : Breaks cs) :
    runsOn cs = (trimStart cs).head?.any isNameRest := by
  cases cs with
  | nil => rfl
  | cons c cs =>
    by_cases hc : isSpace c = true
    · rw [runsOn, List.head?_cons, Option.any_some, hc, Bool.true_and]
    · rw [runsOn_cons (Bool.eq_false_iff.2 hc), trimStart, List.dropWhile_cons_of_neg hc,
        List.head?_cons, Option.any_some, h c rfl]

theorem isNameToken_of_ofChar? {c : Char} {t : TypeToken} (h : ofChar? c = some t) :
    t.isNameToken = false := by
  cases t with
  | name w => exact absurd h ofChar?_ne_name
  | _ => rfl

/-- A text opens with a name, written as it is or behind an `@`, where its tokens do. -/
theorem head?_isNameToken_of_scan (h : scan cs = .ok ts) :
    ts.head?.any isNameToken = (trimStart cs).head?.any fun c => isNameRest c || c == '@' := by
  fun_induction scan cs generalizing ts with
  | case1 =>
    cases h
    rfl
  | case2 c cs hspace ih => rw [ih h, trimStart, trimStart, List.dropWhile_cons_of_pos hspace]
  | case3 c cs hspace t ht ih =>
    obtain ⟨us, -, rfl⟩ := Except.exists_of_map_eq_ok h
    have hat : c ≠ '@' := by
      rintro rfl
      cases ht
    rw [trimStart, List.dropWhile_cons_of_neg hspace]
    simp [isNameToken_of_ofChar? ht, isNameRest_of_ofChar? ht, hat]
  | case4 cs hspace =>
    obtain ⟨us, -, rfl⟩ := Except.exists_of_map_eq_ok h
    rw [trimStart, List.dropWhile_cons_of_neg hspace]
    exact (by decide : false = (isNameRest ':' || ':' == '@'))
  | case5 => cases h
  | case6 => cases h
  | case7 cs word hword hspace =>
    obtain ⟨us, -, rfl⟩ := Except.exists_of_map_eq_ok h
    rw [trimStart, List.dropWhile_cons_of_neg (by decide)]
    exact (by decide : true = (isNameRest '@' || '@' == '@'))
  | case8 c cs hspace _ _ _ hstart =>
    obtain ⟨us, -, rfl⟩ := Except.exists_of_map_eq_ok h
    rw [trimStart, List.dropWhile_cons_of_neg hspace]
    simp [isNameToken, isNameRest_of_isNameStart hstart]
  | case9 => cases h

/-- Behind a name, the next token is a name if one follows behind white space, or behind an `@`. -/
theorem runsOn_of_scan (hbreaks : Breaks cs) (h : scan cs = .ok ts) :
    (ts.head?.any isNameToken = false → runsOn cs = false) ∧
      ('@' ∉ cs → ts.head?.any isNameToken = runsOn cs) := by
  rw [runsOn_of_breaks hbreaks, head?_isNameToken_of_scan h]
  rcases hhead : (trimStart cs).head? with _ | c
  · exact ⟨fun _ => rfl, fun _ => rfl⟩
  · rw [Option.any_some, Option.any_some, Bool.or_eq_false_iff]
    refine ⟨And.left, fun hat => ?_⟩
    have hc : c ≠ '@' := by
      rintro rfl
      exact hat ((List.dropWhile_sublist _).subset (List.mem_of_mem_head? hhead))
    rw [beq_false_of_ne hc, Bool.or_false]

/-- No two names of a text have only white space between them if its tokens have no two in a row,
and, unless there is an `@` to tell them apart, only then. -/
theorem spacedNames_of_scan (h : scan cs = .ok ts) :
    (Apart ts → spacedNames cs = false) ∧ ('@' ∉ cs → spacedNames cs = false → Apart ts) := by
  fun_induction scan cs generalizing ts with
  | case1 =>
    cases h
    exact ⟨fun _ => rfl, fun _ _ => apart_nil⟩
  | case2 c cs hspace ih =>
    rw [spacedNames_cons_of_isSpace hspace]
    exact ⟨(ih h).1, fun hat => (ih h).2 (List.not_mem_of_not_mem_cons hat)⟩
  | case3 c cs _ t ht ih =>
    obtain ⟨us, hus, rfl⟩ := Except.exists_of_map_eq_ok h
    rw [apart_cons (isNameToken_of_ofChar? ht), spacedNames_cons (isNameRest_of_ofChar? ht)]
    exact ⟨(ih hus).1, fun hat => (ih hus).2 (List.not_mem_of_not_mem_cons hat)⟩
  | case4 cs _ _ ih =>
    obtain ⟨us, hus, rfl⟩ := Except.exists_of_map_eq_ok h
    rw [apart_cons rfl, spacedNames_cons (by decide), spacedNames_cons (by decide)]
    exact ⟨(ih hus).1, fun hat => (ih hus).2
      (List.not_mem_of_not_mem_cons (List.not_mem_of_not_mem_cons hat))⟩
  | case5 => cases h
  | case6 => cases h
  | case7 cs word hword =>
    rename_i ih
    obtain ⟨us, hus, rfl⟩ := Except.exists_of_map_eq_ok h
    have hne : word ≠ [] := by simpa using hword
    rw [apart_name_cons, spacedNames_cons (by decide), spacedNames_of_takeWhile hne,
      Bool.or_eq_false_iff]
    constructor
    · rintro ⟨hhead, hapart⟩
      exact ⟨(runsOn_of_scan (breaks_dropWhile cs) hus).1 hhead, (ih hus).1 hapart⟩
    · intro hat
      exact absurd List.mem_cons_self hat
  | case8 c cs _ _ _ _ hstart ih =>
    obtain ⟨us, hus, rfl⟩ := Except.exists_of_map_eq_ok h
    obtain ⟨hends, hsame⟩ := runsOn_of_scan (breaks_dropWhile cs) hus
    rw [apart_name_cons, spacedNames_of_isNameRest (isNameRest_of_isNameStart hstart),
      Bool.or_eq_false_iff]
    constructor
    · rintro ⟨hhead, hapart⟩
      exact ⟨hends hhead, (ih hus).1 hapart⟩
    · rintro hat ⟨hruns, hspaced⟩
      have hrest : '@' ∉ cs.dropWhile isNameRest := fun hmem =>
        hat (List.mem_cons_of_mem c ((List.dropWhile_sublist _).subset hmem))
      exact ⟨(hsame hrest).trans hruns, (ih hus).2 hrest hspaced⟩
  | case9 => cases h

end TypeToken

namespace TypeExpr

variable {text : String} {t : TypeExpr}

/-- A text is read as the same type without its white space exactly if no two of its names have only
white space between them. -/
theorem read_joined_iff (h : read text = .ok t) :
    read (joined text) = .ok t ↔ spacedNames text.toList = false := by
  have hscan := read_exact h
  rw [← scan_withoutSpace_iff hscan, ← String.toList_ofList (l := withoutSpace text.toList),
    ← joined]
  constructor
  · exact read_exact
  · intro hjoined
    rw [← h]
    exact read_congr (hjoined.trans hscan.symm)

/-- A type without an element whose name is right behind another one can always be read without
white space, and no other can, unless an `@` tells the two names apart. -/
theorem read_joined_of_pairsNames (h : read text = .ok t) :
    (t.pairsNames = false → read (joined text) = .ok t) ∧
      ('@' ∉ text.toList → read (joined text) = .ok t → t.pairsNames = false) := by
  obtain ⟨hspaced, hapart⟩ := spacedNames_of_scan (read_exact h)
  rw [read_joined_iff h, ← apart_tokens]
  exact ⟨hspaced, hapart⟩

end TypeExpr

end TaskWrappers
