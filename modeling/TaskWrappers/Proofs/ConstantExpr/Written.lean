import TaskWrappers.Proofs.ConstantExpr.Reader
import TaskWrappers.Proofs.ConstantExpr.Spelling
import TaskWrappers.Proofs.Text.Split

/-!
# Every way to write a string

A text has a string in seven forms: plain and verbatim ones, both also interpolated without a hole,
and raw ones on one line or over several. Each of them has the text as its value, wherever it is
read, and an interpolated string has no value once a hole opens in it
(`Model.constantValue_literal`).

A raw string is told apart from the others by its three or more marks and ends at the next run of as
many, so what is to be shown of its body is that no run in it is as long, which is so for the whole
of it if it is for the lines (`ConstantToken.shortRuns_intercalate`).
-/

namespace TaskWrappers

open Text

namespace ConstantToken

section Runs

variable {marks : Nat}

theorem quoteRun_append_cons {c : Char} (hc : c ≠ '"') (a b : List Char) :
    quoteRun (a ++ c :: b) = quoteRun a := by
  rw [quoteRun_append, quoteRun_eq_zero.2 (show (c :: b).head? ≠ some '"' by simpa using hc)]
  split
  · exact Eq.symm ‹_›
  · rfl

/-- That a text has no run of as many quotation marks. -/
def ShortRuns (marks : Nat) (cs : List Char) : Prop := ∀ t, t <:+ cs → quoteRun t < marks

theorem shortRuns_of_no_run {cs : List Char} (h : ¬ quotes marks <:+: cs) :
    ShortRuns marks cs := by
  intro t ht
  by_contra hlong
  have hprefix : quotes marks <+: t := ⟨t.drop marks, quotes_append_drop (Nat.le_of_not_lt hlong)⟩
  exact h (List.infix_iff_prefix_suffix.2 ⟨t, hprefix, ht⟩)

theorem ShortRuns.of_suffix {cs ds : List Char} (h : ShortRuns marks ds) (hcs : cs <:+ ds) :
    ShortRuns marks cs := fun t ht => h t (ht.trans hcs)

theorem shortRuns_nil (hmarks : 0 < marks) : ShortRuns marks [] := by
  intro t ht
  rw [List.suffix_nil.1 ht]
  exact hmarks

/-- A run of quotation marks is on one side of any other character. -/
theorem shortRuns_append_cons (hmarks : 0 < marks) {c : Char} (hc : c ≠ '"') {b : List Char} :
    ∀ {a : List Char}, ShortRuns marks (a ++ c :: b) ↔ ShortRuns marks a ∧ ShortRuns marks b
  | [] => by
    refine ⟨fun h => ⟨shortRuns_nil hmarks, h.of_suffix (List.suffix_cons c b)⟩, fun h t ht => ?_⟩
    rcases List.suffix_cons_iff.1 ht with rfl | ht
    · rw [← List.nil_append (c :: b), quoteRun_append_cons hc]
      exact hmarks
    · exact h.2 t ht
  | d :: a => by
    have hrun := quoteRun_append_cons hc (d :: a) b
    constructor
    · intro h
      obtain ⟨ha, hb⟩ := (shortRuns_append_cons hmarks hc).1
        (h.of_suffix (List.suffix_cons d (a ++ c :: b)))
      refine ⟨fun t ht => ?_, hb⟩
      rcases List.suffix_cons_iff.1 ht with rfl | ht
      · exact hrun ▸ h _ List.suffix_rfl
      · exact ha t ht
    · rintro ⟨ha, hb⟩ t ht
      rcases List.suffix_cons_iff.1 ht with rfl | ht
      · exact hrun.symm ▸ ha _ List.suffix_rfl
      · exact (shortRuns_append_cons hmarks hc).2
          ⟨ha.of_suffix (List.suffix_cons d a), hb⟩ t ht

theorem ShortRuns.append_left (hmarks : 0 < marks) {b : List Char} (hb : ShortRuns marks b) :
    ∀ {a : List Char}, '"' ∉ a → ShortRuns marks (a ++ b)
  | [], _ => hb
  | _ :: _, ha =>
    have hne := List.ne_and_not_mem_of_not_mem_cons ha
    (shortRuns_append_cons (a := []) hmarks (Ne.symm hne.1)).2
      ⟨shortRuns_nil hmarks, hb.append_left hmarks hne.2⟩

theorem shortRuns_of_not_mem (hmarks : 0 < marks) {cs : List Char} (h : '"' ∉ cs) :
    ShortRuns marks cs := by
  have hcs := (shortRuns_nil hmarks).append_left hmarks h
  rwa [List.append_nil] at hcs

theorem ShortRuns.append_right (hmarks : 0 < marks) {a : List Char} (ha : ShortRuns marks a)
    {b : List Char} (hb : '"' ∉ b) : ShortRuns marks (a ++ b) := by
  cases b with
  | nil => rwa [List.append_nil]
  | cons c b =>
    have hne := List.ne_and_not_mem_of_not_mem_cons hb
    exact (shortRuns_append_cons hmarks (Ne.symm hne.1)).2 ⟨ha, shortRuns_of_not_mem hmarks hne.2⟩

theorem shortRuns_intercalate (hmarks : 0 < marks) : ∀ {ls : List (List Char)},
    ShortRuns marks (['\n'].intercalate ls) ↔ ∀ l ∈ ls, ShortRuns marks l
  | [] => iff_of_true (shortRuns_nil hmarks) nofun
  | [l] => by rw [List.intercalate_singleton, List.forall_mem_singleton]
  | l :: l' :: ls => by
    rw [List.intercalate_cons_cons, List.append_assoc, List.singleton_append,
      shortRuns_append_cons hmarks (by decide), shortRuns_intercalate hmarks,
      List.forall_mem_cons (a := l)]

/-- The body of a raw string goes on past characters that are not quotation marks, if the runs
between them are short. -/
theorem rawBody_append_cons (hmarks : 0 < marks) {c : Char} (hc : c ≠ '"') (rest : List Char) :
    ∀ {a : List Char}, ShortRuns marks a →
      rawBody marks (a ++ c :: rest) = (rawBody marks rest).map fun (v, r) => (a ++ c :: v, r)
  | [], _ => by
    have hrun : quoteRun (c :: rest) = 0 := quoteRun_append_cons hc [] rest
    rw [List.nil_append, rawBody, hrun, if_neg (Nat.not_le_of_lt hmarks)]
    rfl
  | d :: a, ha => by
    have hrun := quoteRun_append_cons hc (d :: a) rest
    rw [List.cons_append] at hrun
    rw [List.cons_append, rawBody, hrun, if_neg (Nat.not_le_of_lt (ha _ List.suffix_rfl)),
      rawBody_append_cons hmarks hc rest (ha.of_suffix (List.suffix_cons d a)), Option.map_map]
    rfl

theorem rawBody_of_shortRuns (hmarks : 0 < marks) {body : List Char} (hruns : ShortRuns marks body)
    (hne : body ≠ []) (hlast : body.getLast? ≠ some '"') (rest : List Char) :
    rawBody marks (body ++ (quotes marks ++ rest)) = some (body, rest) := by
  rcases List.eq_nil_or_concat body with rfl | ⟨a, c, rfl⟩
  · exact absurd rfl hne
  · rw [List.concat_eq_append] at hruns hlast ⊢
    have hc : c ≠ '"' := by simpa using hlast
    rw [List.append_assoc, List.singleton_append, rawBody_append_cons hmarks hc _
      ((shortRuns_append_cons hmarks hc).1 hruns).1, rawBody_quotes hmarks]
    rfl

theorem quotedText_quotes_append (i : Bool) (hmarks : 3 ≤ marks) {cs : List Char}
    (hcs : cs.head? ≠ some '"') : quotedText i (quotes marks ++ cs) = raw marks i cs := by
  have hrun : quoteRun (quotes marks ++ cs) = marks := by
    rw [quoteRun_quotes_append, quoteRun_eq_zero.2 hcs, Nat.add_zero]
  simp only [quotedText, hrun, if_pos hmarks, drop_quotes_append]

end Runs

section Lines

theorem trimReturns_append {cs returns : List Char} (hcs : cs.getLast? ≠ some '\r')
    (hreturns : ∀ c ∈ returns, c = '\r') : trimReturns (cs ++ returns) = cs := by
  have hdrop : (cs ++ returns).reverse.dropWhile (· == '\r') = cs.reverse := by
    rw [List.reverse_append, List.dropWhile_append_of_pos fun c hc => by
      simpa using hreturns c (List.mem_reverse.1 hc)]
    rcases List.eq_nil_or_concat cs with rfl | ⟨a, c, rfl⟩
    · rfl
    · have hc : c ≠ '\r' := by simpa using hcs
      rw [List.concat_eq_append, List.reverse_concat]
      exact List.dropWhile_cons_of_neg (by simpa using hc)
  rw [trimReturns, hdrop, List.reverse_reverse]

theorem isEmpty_trim (cs : List Char) : (trim cs).isEmpty = cs.all isSpace := by
  have hstart : (trimStart cs).all isSpace = cs.all isSpace := by
    conv_rhs => rw [← List.takeWhile_append_dropWhile (p := isSpace) (l := cs), List.all_append,
      List.all_takeWhile, Bool.true_and]
    rfl
  rw [← hstart, Bool.eq_iff_iff, List.isEmpty_iff, List.all_eq_true, trim, trimEnd,
    List.reverse_eq_nil_iff, List.dropWhile_eq_nil_iff]
  simp only [List.mem_reverse]

/-- How a line of a raw string is written: with the indentation in front of it, or blank in any way
if it is empty. -/
inductive RawLine (indent : List Char) : List Char → List Char → Prop
  | indented {line returns : List Char} : (∃ c ∈ line, isSpace c = false) →
      (∀ c ∈ returns, c = '\r') → RawLine indent line (indent ++ line ++ returns)
  | blank {blank : List Char} : (∀ c ∈ blank, isSpace c = true) → '\n' ∉ blank →
      RawLine indent [] blank

/-- The blank text that a line starts with. It does not end in a carriage return, since that ends a
line as a line break does: such a text would be a line of its own and the indentation of none. -/
structure IsIndent (indent : List Char) : Prop where
  isSpace : ∀ c ∈ indent, isSpace c = true
  inLine : '\n' ∉ indent
  last : indent.getLast? ≠ some '\r'

theorem exists_rawLine_of_mem {indent : List Char} {lines ws : List (List Char)}
    (h : List.Forall₂ (RawLine indent) lines ws) {w : List Char} (hw : w ∈ ws) :
    ∃ line ∈ lines, RawLine indent line w := by
  induction h with
  | nil => cases hw
  | cons hline _ ih =>
    rcases List.mem_cons.1 hw with rfl | hw
    · exact ⟨_, List.mem_cons_self, hline⟩
    · obtain ⟨line, hmem, hline⟩ := ih hw
      exact ⟨line, List.mem_cons_of_mem _ hmem, hline⟩

theorem rawValue?_of_split {body first last : List Char} {inner : List (List Char)}
    (h : split (· == '\n') body = first :: (inner ++ [last])) (hfirst : (trim first).isEmpty = true)
    (hlast : (trim last).isEmpty = true) :
    rawValue? body = (inner.mapM (rawLine? (trimReturns last))).map (['\n'].intercalate ·) := by
  rw [rawValue?, h]
  obtain ⟨w, rest, hrest⟩ := List.exists_cons_of_ne_nil (List.append_ne_nil_of_right_ne_nil inner
    (List.cons_ne_nil last []))
  have hreverse : (w :: rest).reverse = last :: inner.reverse := by
    rw [← hrest, List.reverse_concat]
  rw [hrest]
  dsimp only
  rw [hreverse]
  dsimp only
  rw [hfirst, hlast, if_neg (by decide), List.reverse_reverse]

theorem exists_intercalate_concat (last : List Char) :
    ∀ (first : List Char) (ls : List (List Char)),
      ∃ a, ['\n'].intercalate (first :: (ls ++ [last])) = a ++ '\n' :: last
  | first, [] => ⟨first, by
    rw [List.nil_append, List.intercalate_cons_cons, List.intercalate_singleton, List.append_assoc]
    rfl⟩
  | first, l :: ls => by
    obtain ⟨a, ha⟩ := exists_intercalate_concat last l ls
    refine ⟨first ++ '\n' :: a, ?_⟩
    rw [List.cons_append, List.intercalate_cons_cons, ha, List.append_assoc, List.append_assoc]
    rfl

section Indented

variable {indent : List Char} (hindent : IsIndent indent)
include hindent

theorem rawLine?_of_rawLine {line w : List Char} (h : RawLine indent line w) (hline : '\r' ∉ line) :
    rawLine? (trimReturns indent) w = some line := by
  have htrimmed : trimReturns indent = indent := by
    have h : trimReturns (indent ++ []) = indent := trimReturns_append hindent.last nofun
    rwa [List.append_nil] at h
  rw [htrimmed, rawLine?]
  cases h with
  | indented htext hreturns =>
    obtain ⟨c, hc, hspace⟩ := htext
    have hlast : (indent ++ line).getLast? ≠ some '\r' := by
      rw [List.getLast?_append_of_ne_nil _ (List.ne_nil_of_mem hc)]
      exact fun hr => hline (List.mem_of_getLast? hr)
    have hall : ¬ (indent ++ line).all isSpace = true := by
      rw [List.all_eq_true]
      intro hall
      rw [hall c (List.mem_append_right _ hc)] at hspace
      cases hspace
    rw [trimReturns_append hlast hreturns, isEmpty_trim, if_neg hall, unindent?,
      if_pos (List.isPrefixOf_iff_prefix.2 (List.prefix_append _ _)), List.drop_left]
  | blank hblank =>
    have hall : (trimReturns w).all isSpace = true := by
      rw [List.all_eq_true]
      intro c hc
      rw [trimReturns, List.mem_reverse] at hc
      exact hblank c (List.mem_reverse.1 ((List.dropWhile_sublist _).subset hc))
    rw [isEmpty_trim, if_pos hall]

theorem mapM_rawLine? {lines ws : List (List Char)} (h : List.Forall₂ (RawLine indent) lines ws)
    (hlines : ∀ line ∈ lines, '\r' ∉ line) :
    ws.mapM (rawLine? (trimReturns indent)) = some lines := by
  induction h with
  | nil => rfl
  | cons hline _ ih =>
    rw [List.forall_mem_cons] at hlines
    rw [List.mapM_cons, rawLine?_of_rawLine hindent hline hlines.1, ih hlines.2]
    rfl

/-- A written line is one line. -/
theorem not_mem_of_rawLine {line w : List Char} (h : RawLine indent line w) (hline : '\n' ∉ line) :
    '\n' ∉ w := by
  cases h with
  | indented _ hreturns =>
    intro h
    rcases List.mem_append.1 h with h | h
    · exact (List.mem_append.1 h).elim hindent.inLine hline
    · cases hreturns _ h
  | blank _ hbreak => exact hbreak

/-- Over several lines, what is behind the indentation of the closing marks is the text. -/
theorem rawValue?_of_lines {s : List Char} {ws : List (List Char)} (hreturn : '\r' ∉ s)
    (h : List.Forall₂ (RawLine indent) (split (· == '\n') s) ws) :
    rawValue? (['\n'].intercalate ([] :: (ws ++ [indent]))) = some s := by
  have hsplit : split (· == '\n') (['\n'].intercalate ([] :: (ws ++ [indent])))
      = [] :: (ws ++ [indent]) := by
    rw [split_eq_splitOnP, ← List.splitOn_eq_splitOnP]
    refine List.splitOn_intercalate _ ?_ (List.cons_ne_nil _ _)
    rw [List.forall_mem_cons, List.forall_mem_append, List.forall_mem_singleton]
    refine ⟨List.not_mem_nil, fun w hw => ?_, hindent.inLine⟩
    obtain ⟨line, hline, hw⟩ := exists_rawLine_of_mem h hw
    exact not_mem_of_rawLine hindent hw fun hn => by cases of_mem_split hline _ hn
  have hblank : (trim indent).isEmpty = true := by
    rw [isEmpty_trim, List.all_eq_true]
    exact hindent.isSpace
  rw [rawValue?_of_split hsplit rfl hblank, mapM_rawLine? hindent h fun line hline hr =>
    hreturn (subset_of_mem_split hline hr), Option.map_some, intercalate_split]

theorem not_mem_of_isIndent : '"' ∉ indent := fun h => by cases hindent.isSpace _ h

theorem shortRuns_of_lines {marks : Nat} (hmarks : 0 < marks) {s : List Char}
    {ws : List (List Char)} (hs : ShortRuns marks s)
    (h : List.Forall₂ (RawLine indent) (split (· == '\n') s) ws) :
    ShortRuns marks (['\n'].intercalate ([] :: (ws ++ [indent]))) := by
  have hquote := not_mem_of_isIndent hindent
  rw [← intercalate_split '\n' s, shortRuns_intercalate hmarks] at hs
  rw [shortRuns_intercalate hmarks, List.forall_mem_cons, List.forall_mem_append,
    List.forall_mem_singleton]
  refine ⟨shortRuns_nil hmarks, fun w hw => ?_, shortRuns_of_not_mem hmarks hquote⟩
  obtain ⟨line, hline, hw⟩ := exists_rawLine_of_mem h hw
  cases hw with
  | indented _ hreturns =>
    refine ((hs line hline).append_left hmarks hquote).append_right hmarks fun h => ?_
    cases hreturns _ h
  | blank hblank => exact shortRuns_of_not_mem hmarks fun h => by cases hblank _ h

theorem raw_lines {marks : Nat} (hmarks : 0 < marks) {s : List Char} (hs : ShortRuns marks s)
    (hreturn : '\r' ∉ s) {ws : List (List Char)}
    (h : List.Forall₂ (RawLine indent) (split (· == '\n') s) ws) (rest : List Char) :
    raw marks false (['\n'].intercalate ([] :: (ws ++ [indent])) ++ (quotes marks ++ rest))
      = some (s, rest) := by
  obtain ⟨a, ha⟩ := exists_intercalate_concat indent [] ws
  have hlast : (['\n'].intercalate ([] :: (ws ++ [indent]))).getLast? ≠ some '"' := by
    rw [ha, List.getLast?_append_of_ne_nil _ (List.cons_ne_nil _ _)]
    intro h
    rcases List.mem_cons.1 (List.mem_of_getLast? h) with h | h
    · cases h
    · exact not_mem_of_isIndent hindent h
  have hne : ['\n'].intercalate ([] :: (ws ++ [indent])) ≠ [] := by
    rw [ha]
    exact List.append_ne_nil_of_right_ne_nil a (List.cons_ne_nil _ _)
  have hbody := rawBody_of_shortRuns hmarks (shortRuns_of_lines hindent hmarks hs h) hne hlast rest
  rw [raw, hbody, Option.bind_some]
  dsimp only
  rw [Bool.false_and, if_neg (by decide), rawValue?_of_lines hindent hreturn h]
  rfl

end Indented

end Lines

/-- On one line, what is between the marks is the text. -/
theorem raw_line {marks : Nat} (hmarks : 0 < marks) {s : List Char} (hs : ShortRuns marks s)
    (hne : s ≠ []) (hbreak : '\n' ∉ s) (hlast : s.getLast? ≠ some '"') (rest : List Char) :
    raw marks false (s ++ (quotes marks ++ rest)) = some (s, rest) := by
  have hvalue : rawValue? s = some s := by
    rw [rawValue?, split_of_not_mem hbreak]
  rw [raw, rawBody_of_shortRuns hmarks hs hne hlast, Option.bind_some]
  dsimp only
  rw [Bool.false_and, if_neg (by decide), hvalue]
  rfl

/-- A brace in its body leaves an interpolated raw string without a value. -/
theorem raw_hole {marks : Nat} (hmarks : 0 < marks) {s : List Char} (hs : ShortRuns marks s)
    (hole : List Char) : raw marks true (s ++ '\x7b' :: hole) = none := by
  rw [raw, rawBody_append_cons hmarks (by decide) hole hs]
  cases rawBody marks hole with
  | none => rfl
  | some p =>
    have hbrace : (s ++ '\x7b' :: p.1).any isBrace = true :=
      List.any_eq_true.2 ⟨'\x7b', List.mem_append_right _ List.mem_cons_self, rfl⟩
    rw [Option.map_some, Option.bind_some]
    exact if_pos hbrace

/-- The strings that have a text for their value. -/
inductive Literal (s : List Char) : List Char → Prop
  | plain {ws : List (List Char)} : List.Forall₂ (Spelled false) s ws →
      Literal s ('"' :: (ws.flatten ++ ['"']))
  | interpolated {ws : List (List Char)} : List.Forall₂ (Spelled true) s ws →
      Literal s ('$' :: '"' :: (ws.flatten ++ ['"']))
  | verbatim : Literal s ('@' :: '"' :: (doubled false s ++ ['"']))
  | atDollar : Literal s ('@' :: '$' :: '"' :: (doubled true s ++ ['"']))
  | dollarAt : Literal s ('$' :: '@' :: '"' :: (doubled true s ++ ['"']))
  | raw {marks : Nat} : 3 ≤ marks → s ≠ [] → '\n' ∉ s → ¬ quotes marks <:+: s →
      s.head? ≠ some '"' → s.getLast? ≠ some '"' → Literal s (quotes marks ++ (s ++ quotes marks))
  | lines {marks : Nat} {indent : List Char} {ws : List (List Char)} : 3 ≤ marks → '\r' ∉ s →
      ¬ quotes marks <:+: s → IsIndent indent →
      List.Forall₂ (RawLine indent) (s.splitOn '\n') ws →
      Literal s (quotes marks ++ (['\n'].intercalate ([] :: (ws ++ [indent])) ++ quotes marks))

/-- Texts that start with an interpolated string up to its first hole. -/
inductive Holed : List Char → Prop
  | plain {ws : List (List Char)} {hole : List Char} : (∀ w ∈ ws, Chunk w) →
      hole.head? ≠ some '\x7b' → Holed ('$' :: '"' :: (ws.flatten ++ '\x7b' :: hole))
  | atDollar {s hole : List Char} : hole.head? ≠ some '\x7b' →
      Holed ('@' :: '$' :: '"' :: (doubled true s ++ '\x7b' :: hole))
  | dollarAt {s hole : List Char} : hole.head? ≠ some '\x7b' →
      Holed ('$' :: '@' :: '"' :: (doubled true s ++ '\x7b' :: hole))
  | raw {marks : Nat} {s hole : List Char} (dollars : Nat) : 3 ≤ marks → ¬ quotes marks <:+: s →
      s.head? ≠ some '"' →
      Holed (List.replicate (dollars + 1) '$' ++ (quotes marks ++ (s ++ '\x7b' :: hole)))

theorem quotedText_of_head? (i : Bool) {cs : List Char} (hcs : cs.head? ≠ some '"') :
    quotedText i ('"' :: cs) = plain i cs := by
  have hrun : quoteRun ('"' :: cs) = 1 := by
    rw [show '"' :: cs = quotes 1 ++ cs from rfl, quoteRun_quotes_append, quoteRun_eq_zero.2 hcs]
  simp only [quotedText, hrun]
  rfl

theorem quotedText_spelled {i : Bool} {s : List Char} {ws : List (List Char)}
    (h : List.Forall₂ (Spelled i) s ws) :
    quotedText i ('"' :: (ws.flatten ++ ['"'])) = some (s, []) := by
  have hplain : plain i (ws.flatten ++ ['"']) = some (s, []) := by
    rw [plain_spelled h, plain_quote]
    exact congrArg (fun v => some (v, [])) (List.append_nil s)
  cases h with
  | nil => rfl
  | cons hc _ =>
    rw [List.flatten_cons, List.append_assoc] at hplain ⊢
    rw [quotedText_of_head? i (head?_spelling hc _), hplain]

theorem verbatim_closed (i : Bool) (s : List Char) :
    verbatim i (doubled i s ++ ['"']) = some (s, []) := by
  rw [verbatim_doubled, verbatim.eq_def]
  exact congrArg (fun v => some (v, [])) (List.append_nil s)

theorem verbatim_hole (s : List Char) {hole : List Char} (hhole : hole.head? ≠ some '\x7b') :
    verbatim true (doubled true s ++ '\x7b' :: hole) = none := by
  have hnone : verbatim true ('\x7b' :: hole) = none := by
    rw [verbatim.eq_def]
    cases hole with
    | nil => rfl
    | cons c cs => exact if_neg fun hc => hhole (congrArg some hc)
  rw [verbatim_doubled, hnone]
  rfl

/-- Each form of a string is read as the text. -/
theorem string?_of_literal {s lit : List Char} (h : Literal s lit) :
    string? lit = some (some (s, [])) := by
  have hraw {marks : Nat} (hmarks : 3 ≤ marks) {body : List Char} (hbody : body.head? ≠ some '"')
      (hvalue : ConstantToken.raw marks false body = some (s, [])) :
      string? (quotes marks ++ body) = some (some (s, [])) := by
    rw [← quotedText_quotes_append false hmarks hbody] at hvalue
    obtain ⟨n, rfl⟩ := Nat.exists_eq_add_of_le' hmarks
    exact congrArg some hvalue
  cases h with
  | plain h => exact congrArg some (quotedText_spelled h)
  | interpolated h => exact congrArg some (quotedText_spelled h)
  | verbatim => exact congrArg some (verbatim_closed false s)
  | atDollar => exact congrArg some (verbatim_closed true s)
  | dollarAt => exact congrArg some (verbatim_closed true s)
  | raw hmarks hne hbreak hruns hhead hlast =>
    refine hraw hmarks ?_ ?_
    · rwa [List.head?_append_of_ne_nil _ hne]
    · have hvalue := raw_line (by omega) (shortRuns_of_no_run hruns) hne hbreak hlast []
      rwa [List.append_nil] at hvalue
  | lines hmarks hreturn hruns hindent hlines =>
    rw [List.splitOn_eq_splitOnP, ← split_eq_splitOnP] at hlines
    refine hraw hmarks ?_ ?_
    · obtain ⟨w, rest, hrest⟩ := List.exists_cons_of_ne_nil (List.concat_ne_nil _ _)
      rw [hrest, List.intercalate_cons_cons]
      nofun
    · have hvalue := raw_lines hindent (by omega) (shortRuns_of_no_run hruns) hreturn hlines []
      rwa [List.append_nil] at hvalue

/-- Of several dollar signs only the last belongs to the string. -/
theorem scan_dollars {cs : List Char} (h : scan ('$' :: cs) = none) : ∀ dollars : Nat,
    scan (List.replicate (dollars + 1) '$' ++ cs) = none
  | 0 => h
  | dollars + 1 => by
    have hnext := scan_dollars h dollars
    rw [List.replicate_succ, List.cons_append] at hnext
    rw [List.replicate_succ, List.replicate_succ, List.cons_append, List.cons_append, scan,
      if_neg (by decide)]
    exact congrArg (Option.map (other '$' :: ·)) hnext

theorem scan_of_holed {cs : List Char} (h : Holed cs) : scan cs = none := by
  have hbroken {cs : List Char} (h : string? cs = some none) : scan cs = none :=
    (scan_string h).trans rfl
  cases h with
  | @plain ws hole hws hhole =>
    have hhead : (ws.flatten ++ '\x7b' :: hole).head? ≠ some '"' := by
      cases ws with
      | nil => nofun
      | cons w ws =>
        rw [List.flatten_cons, List.append_assoc]
        exact (hws w List.mem_cons_self).head?_append _
    have hnone : quotedText true ('"' :: (ws.flatten ++ '\x7b' :: hole)) = none := by
      rw [quotedText_of_head? true hhead, plain_hole hhole ws hws]
    exact hbroken (congrArg some hnone)
  | atDollar hhole => exact hbroken (congrArg some (verbatim_hole _ hhole))
  | dollarAt hhole => exact hbroken (congrArg some (verbatim_hole _ hhole))
  | @raw marks s hole dollars hmarks hruns hhead =>
    have hbody : (s ++ '\x7b' :: hole).head? ≠ some '"' := by
      cases s with
      | nil => nofun
      | cons c s => exact hhead
    have hnone : quotedText true (quotes marks ++ (s ++ '\x7b' :: hole)) = none := by
      rw [quotedText_quotes_append true hmarks hbody,
        raw_hole (by omega) (shortRuns_of_no_run hruns)]
    obtain ⟨n, rfl⟩ := Nat.exists_eq_add_of_le' hmarks
    have hstring : string? ('$' :: (quotes (n + 3) ++ (s ++ '\x7b' :: hole))) = some none :=
      congrArg some hnone
    exact scan_dollars (hbroken hstring) dollars

end ConstantToken

/-- A text that has a string for its only token is the value of that string. -/
theorem ConstantExpr.spells_of_literal {s lit : String}
    (h : ConstantToken.Literal s.toList lit.toList) : Spells lit [.text s] := by
  have hscan : ConstantToken.scan lit.toList = some [.text s.toList] := by
    rw [ConstantToken.scan_string (ConstantToken.string?_of_literal h), Option.bind_some]
    dsimp only
    rw [ConstantToken.scan]
    rfl
  have hterm := Derives.text s.toList
  rw [String.ofList_toList] at hterm
  exact ⟨_, hscan, .last hterm⟩

namespace Model

variable (m : Model) (scope : Scope)

theorem constantValue_of_literal {s lit : String}
    (h : ConstantToken.Literal s.toList lit.toList) : m.constantValue scope lit = some s :=
  (ConstantExpr.spells_of_literal h).value?_eq.trans (ConstantExpr.join_singleton _ _)

/-- Every form of a string has the text as its value, and an interpolated one with a hole has
none. -/
theorem constantValue_literal :
    (∀ s lit : String, ConstantToken.Literal s.toList lit.toList →
      m.constantValue scope lit = some s) ∧
    ∀ text : String, ConstantToken.Holed text.toList → m.constantValue scope text = none := by
  refine ⟨fun s lit h => constantValue_of_literal m scope h, fun text h => ?_⟩
  rw [constantValue, ConstantExpr.valueWithin, ConstantExpr.value?, ConstantToken.scan_of_holed h]
  rfl

/-- A text over several lines, and a greeting that is filled in. -/
theorem constantValue_literal_lines :
    (build [] []).constantValue Scope.global "\"\"\"\n  say\n\n  \"hi\"\n  \"\"\""
        = some "say\n\n\"hi\"" ∧
      (build [] []).constantValue Scope.global "$\"\"\"Hi \x7bname\x7d\"\"\"" = none := by
  refine ⟨(constantValue_literal _ _).1 _ _ ?_, (constantValue_literal _ _).2 _ ?_⟩
  · have hliteral : "\"\"\"\n  say\n\n  \"hi\"\n  \"\"\"".toList = ConstantToken.quotes 3
        ++ (['\n'].intercalate ([] :: ([[' ', ' '] ++ "say".toList ++ [], [],
          [' ', ' '] ++ "\"hi\"".toList ++ []] ++ [[' ', ' ']])) ++ ConstantToken.quotes 3) := by
      decide +kernel
    have hlines : "say\n\n\"hi\"".toList.splitOn '\n' = ["say".toList, [], "\"hi\"".toList] := by
      decide +kernel
    have hindent : ConstantToken.IsIndent [' ', ' '] :=
      ⟨List.all_eq_true.1 (by decide), by decide, by decide⟩
    have hline {line : List Char} {c : Char} (hc : c ∈ line) (hspace : Text.isSpace c = false) :
        ConstantToken.RawLine [' ', ' '] line ([' ', ' '] ++ line ++ []) :=
      .indented ⟨c, hc, hspace⟩ nofun
    have hsay : 's' ∈ "say".toList := by decide +kernel
    have hhi : 'h' ∈ "\"hi\"".toList := by decide +kernel
    rw [hliteral]
    refine .lines (Nat.le_refl 3) (by decide +kernel) (by decide +kernel) hindent ?_
    rw [hlines]
    exact .cons (hline hsay (by decide)) (.cons (.blank nofun nofun)
      (.cons (hline hhi (by decide)) .nil))
  · have hholed : "$\"\"\"Hi \x7bname\x7d\"\"\"".toList = List.replicate 1 '$'
        ++ (ConstantToken.quotes 3 ++ ("Hi ".toList ++ '\x7b' :: "name\x7d\"\"\"".toList)) := by
      decide +kernel
    rw [hholed]
    exact .raw 0 (Nat.le_refl 3) (by decide +kernel) (by decide +kernel)

end Model

end TaskWrappers
