import TaskWrappers.Proofs.TypeExpr.WellFormed
import TaskWrappers.TypeExpr.Printer
import TaskWrappers.TypeExpr.Token

/-!
# The tokens of a printed type

`TypeExpr.tokens` lists the tokens of a type without going through its text, and scanning the
printed text of a well formed type gives just these (`TypeExpr.scan_print`). The text may stand in
front of any other that does not go on with a name, so that the statement holds of every part of a
type: what a part is printed before is a mark, a space or nothing.
-/

namespace TaskWrappers

open Text

mutual

def TypeExpr.tokens : TypeExpr → List TypeToken
  | .keyword word => [.name word]
  | .named qualifier outer last =>
    (match qualifier with
      | some q => [.name q, .colons]
      | none => []) ++ Segment.dottedTokens outer ++ last.tokens
  | .nullable inner => inner.tokens ++ [.question]
  | .array element commas =>
    element.tokens ++ .leftBracket :: (List.replicate commas .comma ++ [.rightBracket])
  | .tuple first second rest =>
    .leftParen :: (first.tokens ++ .comma :: (second.tokens ++ TupleElement.restTokens rest)
      ++ [.rightParen])

def Segment.tokens : Segment → List TypeToken
  | .plain name => [.name name]
  | .generic name first rest =>
    .name name :: .less :: (first.tokens ++ TypeArg.restTokens rest ++ [.greater])

def Segment.dottedTokens : List Segment → List TypeToken
  | [] => []
  | s :: ss => s.tokens ++ .dot :: Segment.dottedTokens ss

def TypeArg.tokens : TypeArg → List TypeToken
  | .omitted => []
  | .given type => type.tokens

def TypeArg.restTokens : List TypeArg → List TypeToken
  | [] => []
  | a :: as => .comma :: (a.tokens ++ TypeArg.restTokens as)

def TupleElement.tokens : TupleElement → List TypeToken
  | ⟨type, none⟩ => type.tokens
  | ⟨type, some name⟩ => type.tokens ++ [.name name]

def TupleElement.restTokens : List TupleElement → List TypeToken
  | [] => []
  | e :: es => .comma :: (e.tokens ++ TupleElement.restTokens es)

end

namespace TypeToken

/-- A text that does not go on with the name before it. -/
def Breaks (cs : List Char) : Prop := ∀ c, cs.head? = some c → isNameRest c = false

theorem breaks_cons {c : Char} {cs : List Char} (h : isNameRest c = false) : Breaks (c :: cs) := by
  intro d hd
  cases hd
  exact h

theorem breaks_nil : Breaks [] := by
  intro c hc
  cases hc

section Scan

variable {cs : List Char} {ts : List TypeToken}

theorem scan_space (h : scan cs = .ok ts) : scan (' ' :: cs) = .ok ts := by
  rw [scan.eq_def]
  exact (if_pos (by decide)).trans h

theorem scan_mark {c : Char} {t : TypeToken} (hc : isSpace c = false) (ht : ofChar? c = some t)
    (h : scan cs = .ok ts) : scan (c :: cs) = .ok (t :: ts) := by
  rw [scan.eq_def]
  simp only [hc, Bool.false_eq_true, if_false, ht, h]
  rfl

theorem scan_colons (h : scan cs = .ok ts) : scan (':' :: ':' :: cs) = .ok (colons :: ts) := by
  rw [scan.eq_def]
  simp only [show isSpace ':' = false by decide, show ofChar? ':' = none by rfl,
    Bool.false_eq_true, if_false, if_true, h]
  rfl

/-- A character that opens a name is no mark. -/
theorem ofChar?_of_isNameStart {c : Char} (h : isNameStart c = true) : ofChar? c = none := by
  unfold ofChar?
  split
  all_goals first | rfl | exact absurd h (by decide)

/-- A name is read up to the first character that is none of its own. -/
theorem scan_start {c : Char} (hc : isNameStart c = true) (cs : List Char) :
    scan (c :: cs) = (scan (cs.dropWhile isNameRest)).map
      (.name (.ofList (c :: cs.takeWhile isNameRest)) :: ·) := by
  have hcolon : c ≠ ':' := by
    rintro rfl
    exact absurd hc (by decide)
  have hat : c ≠ '@' := by
    rintro rfl
    exact absurd hc (by decide)
  rw [scan.eq_def]
  simp only [isSpace_of_isNameStart hc, ofChar?_of_isNameStart hc, hcolon, hat, hc,
    Bool.false_eq_true, if_false, if_true]

theorem scan_name_append {name : String} (hn : isName name = true) (hcs : Breaks cs) :
    scan (name.toList ++ cs) = (scan cs).map (.name name :: ·) := by
  obtain ⟨c, ds, hc, hs, hr⟩ := isName_iff.1 hn
  obtain ⟨htake, hdrop⟩ := takeWhile_append_of_isNameRest hcs hr
  rw [hc, List.cons_append, scan_start hs, htake, hdrop, ← hc, String.ofList_toList]

theorem scan_verbatim {word : List Char} (hword : word ≠ [])
    (hname : ∀ c ∈ word, isNameRest c = true) (ds : List Char) :
    scan ('@' :: (word ++ ds)) = (scan (ds.dropWhile isNameRest)).map
      (name (.ofList (word ++ ds.takeWhile isNameRest)) :: ·) := by
  have hne : (word ++ ds.takeWhile isNameRest).isEmpty = false := by simp [hword]
  rw [scan.eq_def]
  simp only [show isSpace '@' = false by decide, show ofChar? '@' = none by rfl,
    Bool.false_eq_true, if_false, if_true, List.takeWhile_append_of_pos hname,
    List.dropWhile_append_of_pos hname, hne, show '@' ≠ ':' by decide]

/-- The `@` of a name that is written verbatim is no part of it. -/
theorem scan_verbatim_append {name : String} (hn : isName name = true) (hcs : Breaks cs) :
    scan ('@' :: (name.toList ++ cs)) = (scan cs).map (.name name :: ·) := by
  obtain ⟨c, ds, hc, -, -⟩ := isName_iff.1 hn
  obtain ⟨htake, hdrop⟩ := takeWhile_append_of_isNameRest hcs (List.forall_mem_nil _)
  rw [List.nil_append] at htake hdrop
  rw [scan_verbatim (hc ▸ List.cons_ne_nil c ds) (isNameRest_of_isName hn), htake, hdrop,
    List.append_nil, String.ofList_toList]

theorem scan_name {name : String} (hn : isName name = true) (hcs : Breaks cs)
    (h : scan cs = .ok ts) : scan (name.toList ++ cs) = .ok (.name name :: ts) := by
  rw [scan_name_append hn hcs, h]
  rfl

end Scan

end TypeToken

open TypeToken (scan Breaks breaks_cons breaks_nil scan_space scan_mark scan_colons scan_name)

theorem toList_commas (n : Nat) : ("".pushn ',' n).toList = List.replicate n ',' := by
  rw [String.pushn_eq_repeat_push]
  induction n with
  | zero => rfl
  | succ n ih => rw [Nat.repeat, String.toList_push, ih, List.replicate_succ']

theorem scan_commas {cs : List Char} {ts : List TypeToken} (h : scan cs = .ok ts) :
    ∀ n : Nat, scan (List.replicate n ',' ++ cs) = .ok (List.replicate n .comma ++ ts)
  | 0 => h
  | n + 1 => scan_mark (by decide) rfl (scan_commas h n)

/-- Both separators of type arguments are one comma to the scanner. -/
theorem scan_separator {separator : String} (hs : separator = "," ∨ separator = ", ")
    {cs : List Char} {ts : List TypeToken} (h : scan cs = .ok ts) :
    scan (separator.toList ++ cs) = .ok (.comma :: ts) := by
  rcases hs with rfl | rfl
  · exact scan_mark (by decide) rfl h
  · exact scan_mark (by decide) rfl (scan_space h)

theorem breaks_separator {separator : String} (hs : separator = "," ∨ separator = ", ")
    (cs : List Char) : Breaks (separator.toList ++ cs) := by
  rcases hs with rfl | rfl
  · exact breaks_cons (by decide)
  · exact breaks_cons (by decide)

mutual

theorem TypeExpr.scan_print : ∀ (t : TypeExpr) {cs : List Char} {ts : List TypeToken},
    t.WellFormed → Breaks cs → scan cs = .ok ts →
      scan (t.print.toList ++ cs) = .ok (t.tokens ++ ts)
  | .keyword word, cs, ts, hw, hcs, h => by
    rw [TypeExpr.WellFormed] at hw
    rw [TypeExpr.print, TypeExpr.tokens]
    exact scan_name (TypeExpr.isName_of_mem_keywords hw) hcs h
  | .named qualifier outer last, cs, ts, hw, hcs, h => by
    rw [TypeExpr.WellFormed] at hw
    obtain ⟨hq, ho, hl, -⟩ := hw
    have hdotted := Segment.scan_printDotted outer ho (Segment.scan_print last hl hcs h)
    cases qualifier with
    | none =>
      simp only [TypeExpr.print, TypeExpr.tokens, String.empty_append, String.toList_append,
        List.append_assoc, List.nil_append]
      exact hdotted
    | some q =>
      simp only [TypeExpr.print, TypeExpr.tokens, String.toList_append, List.append_assoc]
      exact scan_name (hq q rfl) (breaks_cons (by decide)) (scan_colons hdotted)
  | .nullable inner, cs, ts, hw, hcs, h => by
    rw [TypeExpr.WellFormed] at hw
    rw [TypeExpr.print, TypeExpr.tokens, String.toList_append, List.append_assoc,
      List.append_assoc]
    exact TypeExpr.scan_print inner hw (breaks_cons (by decide)) (scan_mark (by decide) rfl h)
  | .array element commas, cs, ts, hw, hcs, h => by
    rw [TypeExpr.WellFormed] at hw
    have hclose : scan (']' :: cs) = .ok (.rightBracket :: ts) := scan_mark (by decide) rfl h
    have hopen := scan_mark (c := '[') (by decide) rfl (scan_commas hclose commas)
    simp only [TypeExpr.print, TypeExpr.tokens, String.toList_append, toList_commas,
      List.append_assoc, List.cons_append]
    exact TypeExpr.scan_print element hw (breaks_cons (by decide)) hopen
  | .tuple first second rest, cs, ts, hw, hcs, h => by
    rw [TypeExpr.WellFormed] at hw
    obtain ⟨hf, hs, hr⟩ := hw
    have hclose : scan (')' :: cs) = .ok (.rightParen :: ts) := scan_mark (by decide) rfl h
    obtain ⟨hb, hrest⟩ := TupleElement.scan_printRest rest hr (breaks_cons (by decide)) hclose
    have hsecond := TupleElement.scan_print second hs hb hrest
    have hfirst := TupleElement.scan_print first hf (breaks_cons (c := ',') (by decide))
      (scan_mark (by decide) rfl (scan_space hsecond))
    simp only [TypeExpr.print, TypeExpr.tokens, String.toList_append, List.append_assoc,
      List.cons_append]
    exact scan_mark (by decide) rfl hfirst

theorem Segment.scan_print : ∀ (s : Segment) {cs : List Char} {ts : List TypeToken},
    s.WellFormed → Breaks cs → scan cs = .ok ts →
      scan (s.print.toList ++ cs) = .ok (s.tokens ++ ts)
  | .plain name, cs, ts, hw, hcs, h => by
    rw [Segment.WellFormed] at hw
    rw [Segment.print, Segment.tokens]
    exact scan_name hw hcs h
  | .generic name first rest, cs, ts, hw, hcs, h => by
    rw [Segment.WellFormed] at hw
    obtain ⟨hn, hf, hr⟩ := hw
    have hclose : scan ('>' :: cs) = .ok (.greater :: ts) := scan_mark (by decide) rfl h
    have hsep : ∀ b : Bool, (if b then "," else ", ") = "," ∨ (if b then "," else ", ") = ", " := by
      decide
    obtain ⟨hb, hrest⟩ := TypeArg.scan_printRest (hsep _) rest hr (breaks_cons (by decide)) hclose
    have hopen := scan_mark (c := '<') (by decide) rfl (TypeArg.scan_print first hf hb hrest)
    simp only [Segment.print, Segment.tokens, String.toList_append, List.append_assoc,
      List.cons_append]
    exact scan_name hn (breaks_cons (by decide)) hopen

theorem Segment.scan_printDotted : ∀ (ss : List Segment) {cs : List Char} {ts : List TypeToken},
    Segment.AllWellFormed ss → scan cs = .ok ts →
      scan ((Segment.printDotted ss).toList ++ cs) = .ok (Segment.dottedTokens ss ++ ts)
  | [], cs, ts, _, h => by
    rw [Segment.printDotted, Segment.dottedTokens]
    exact h
  | s :: ss, cs, ts, hw, h => by
    rw [Segment.AllWellFormed] at hw
    have hdot := scan_mark (c := '.') (by decide) rfl (Segment.scan_printDotted ss hw.2 h)
    simp only [Segment.printDotted, Segment.dottedTokens, String.toList_append, List.append_assoc,
      List.cons_append]
    exact Segment.scan_print s hw.1 (breaks_cons (by decide)) hdot

theorem TypeArg.scan_print : ∀ (a : TypeArg) {cs : List Char} {ts : List TypeToken},
    a.WellFormed → Breaks cs → scan cs = .ok ts →
      scan (a.print.toList ++ cs) = .ok (a.tokens ++ ts)
  | .omitted, cs, ts, _, _, h => by
    rw [TypeArg.print, TypeArg.tokens]
    exact h
  | .given type, cs, ts, hw, hcs, h => by
    rw [TypeArg.WellFormed] at hw
    rw [TypeArg.print, TypeArg.tokens]
    exact TypeExpr.scan_print type hw hcs h

theorem TypeArg.scan_printRest {separator : String} (hs : separator = "," ∨ separator = ", ") :
    ∀ (as : List TypeArg) {cs : List Char} {ts : List TypeToken},
      TypeArg.AllWellFormed as → Breaks cs → scan cs = .ok ts →
        Breaks ((TypeArg.printRest separator as).toList ++ cs) ∧
          scan ((TypeArg.printRest separator as).toList ++ cs) = .ok (TypeArg.restTokens as ++ ts)
  | [], cs, ts, _, hcs, h => by
    rw [TypeArg.printRest, TypeArg.restTokens]
    exact ⟨hcs, h⟩
  | a :: as, cs, ts, hw, hcs, h => by
    rw [TypeArg.AllWellFormed] at hw
    obtain ⟨hb, hrest⟩ := TypeArg.scan_printRest hs as hw.2 hcs h
    simp only [TypeArg.printRest, TypeArg.restTokens, String.toList_append, List.append_assoc,
      List.cons_append]
    exact ⟨breaks_separator hs _, scan_separator hs (TypeArg.scan_print a hw.1 hb hrest)⟩

theorem TupleElement.scan_print : ∀ (e : TupleElement) {cs : List Char} {ts : List TypeToken},
    e.WellFormed → Breaks cs → scan cs = .ok ts →
      scan (e.print.toList ++ cs) = .ok (e.tokens ++ ts)
  | ⟨type, none⟩, cs, ts, hw, hcs, h => by
    rw [TupleElement.WellFormed] at hw
    rw [TupleElement.print, TupleElement.tokens]
    exact TypeExpr.scan_print type hw.1 hcs h
  | ⟨type, some name⟩, cs, ts, hw, hcs, h => by
    rw [TupleElement.WellFormed] at hw
    simp only [TupleElement.print, TupleElement.tokens, String.toList_append, List.append_assoc]
    exact TypeExpr.scan_print type hw.1 (breaks_cons (by decide))
      (scan_space (scan_name (hw.2 name rfl) hcs h))

theorem TupleElement.scan_printRest : ∀ (es : List TupleElement) {cs : List Char}
    {ts : List TypeToken}, TupleElement.AllWellFormed es → Breaks cs → scan cs = .ok ts →
      Breaks ((TupleElement.printRest es).toList ++ cs) ∧
        scan ((TupleElement.printRest es).toList ++ cs) = .ok (TupleElement.restTokens es ++ ts)
  | [], cs, ts, _, hcs, h => by
    rw [TupleElement.printRest, TupleElement.restTokens]
    exact ⟨hcs, h⟩
  | e :: es, cs, ts, hw, hcs, h => by
    rw [TupleElement.AllWellFormed] at hw
    obtain ⟨hb, hrest⟩ := TupleElement.scan_printRest es hw.2 hcs h
    simp only [TupleElement.printRest, TupleElement.restTokens, String.toList_append,
      List.append_assoc, List.cons_append]
    exact ⟨breaks_cons (by decide),
      scan_mark (by decide) rfl (scan_space (TupleElement.scan_print e hw.1 hb hrest))⟩

end

end TaskWrappers
