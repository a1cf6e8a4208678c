import TaskWrappers.ConstantExpr.Token
import Mathlib.Data.List.TakeWhile

/-!
# Where a string ends

A string in an expression ends where its own characters say: whatever else follows it, it is the
same string with the same value (`ConstantToken.string?_append`). What follows decides in one
place only, since a further quotation mark behind a string's last one could go on with it.
-/

namespace TaskWrappers

open Text

/-- As many of the first characters as are read up to a bound are read again before any text that
goes on the same. -/
theorem Text.takeWhile_take_append {p : Char → Bool} : ∀ {n : Nat} {cs ds : List Char},
    ds.head? = (cs.drop ((cs.take n).takeWhile p).length).head? →
      (((cs.take n).takeWhile p ++ ds).take n).takeWhile p = (cs.take n).takeWhile p
  | 0, _, _, _ => rfl
  | n + 1, [], ds, h => by
    rw [List.head?_eq_none_iff.1 h]
    rfl
  | n + 1, c :: cs, ds, h => by
    rw [List.take_succ_cons] at h ⊢
    by_cases hc : p c = true
    · rw [List.takeWhile_cons_of_pos hc] at h ⊢
      rw [List.cons_append, List.take_succ_cons, List.takeWhile_cons_of_pos hc,
        takeWhile_take_append h]
    · rw [List.takeWhile_cons_of_neg hc] at h ⊢
      obtain ⟨es, rfl⟩ := List.head?_eq_some_iff.1 h
      rw [List.nil_append, List.take_succ_cons, List.takeWhile_cons_of_neg hc]

theorem Text.exists_of_codePoint {least most : Nat} {cs rest : List Char} {d : Char}
    (h : codePoint least most cs = some (d, rest)) :
    ∃ digits, cs = digits ++ rest ∧ (∀ c ∈ digits, isAsciiHexDigit c = true) ∧
      ∀ ds, ds.head? = rest.head? → codePoint least most (digits ++ ds) = some (d, ds) := by
  unfold codePoint at h
  dsimp only at h
  split at h
  · cases h
  · rename_i hleast
    obtain ⟨e, he, heq⟩ := Option.map_eq_some_iff.1 h
    cases heq
    have hcs : (cs.take most).takeWhile isAsciiHexDigit
        ++ cs.drop ((cs.take most).takeWhile isAsciiHexDigit).length = cs :=
      List.prefix_iff_eq_append.1 ((List.takeWhile_prefix _).trans (List.take_prefix _ _))
    refine ⟨_, hcs.symm, List.all_eq_true.1 List.all_takeWhile, fun ds hds => ?_⟩
    simp only [codePoint, takeWhile_take_append hds, if_neg hleast, he, Option.map_some,
      List.drop_left]

namespace ConstantToken

/-- An escape sequence ends by itself, or where the next character is no further digit. -/
theorem exists_of_escape {cs rest : List Char} {d : Char} (h : escape cs = some (d, rest)) :
    ∃ digits, cs = digits ++ rest ∧
      ∀ ds, ds.head? = rest.head? → escape (digits ++ ds) = some (d, ds) := by
  cases cs with
  | nil => cases h
  | cons c cs =>
    have hpoint {least most : Nat} (h : codePoint least most cs = some (d, rest))
        (hescape : ∀ ds, escape (c :: ds) = codePoint least most ds) :
        ∃ digits, c :: cs = digits ++ rest ∧
          ∀ ds, ds.head? = rest.head? → escape (digits ++ ds) = some (d, ds) := by
      obtain ⟨digits, rfl, -, hdigits⟩ := exists_of_codePoint h
      exact ⟨c :: digits, rfl, fun ds hds => (hescape _).trans (hdigits ds hds)⟩
    rw [escape] at h
    split at h
    · exact hpoint h fun ds => by rw [escape, if_pos ‹_›]
    · split at h
      · exact hpoint h fun ds => by rw [escape, if_neg ‹_›, if_pos ‹_›]
      · split at h
        · exact hpoint h fun ds => by rw [escape, if_neg ‹_›, if_neg ‹_›, if_pos ‹_›]
        · obtain ⟨e, he, heq⟩ := Option.map_eq_some_iff.1 h
          cases heq
          refine ⟨[c], rfl, fun ds _ => ?_⟩
          rw [List.singleton_append, escape, if_neg ‹_›, if_neg ‹_›, if_neg ‹_›, he]
          rfl

section Plain

variable (i : Bool)

theorem plain_quote (ds : List Char) : plain i ('"' :: ds) = some ([], ds) := by
  rw [plain.eq_def]
  rfl

theorem plain_escape {cs rest : List Char} {d : Char} (h : escape cs = some (d, rest)) :
    plain i ('\\' :: cs) = (plain i rest).map fun (v, r) => (d :: v, r) := by
  rw [plain.eq_def]
  dsimp only
  rw [if_neg (by decide), if_neg (by decide), if_pos rfl]
  split
  · rename_i hnone
    rw [h] at hnone
    cases hnone
  · rename_i hsome
    rw [h] at hsome
    cases hsome
    rfl

theorem plain_escape_none {cs : List Char} (h : escape cs = none) :
    plain i ('\\' :: cs) = none := by
  rw [plain.eq_def]
  dsimp only
  rw [if_neg (by decide), if_neg (by decide), if_pos rfl]
  split
  · rfl
  · rename_i hsome
    rw [h] at hsome
    cases hsome

end Plain

theorem exists_of_plain {i : Bool} {cs v rest : List Char} (h : plain i cs = some (v, rest)) :
    ∃ body, body ≠ [] ∧ cs = body ++ rest ∧ ∀ ds, plain i (body ++ ds) = some (v, ds) := by
  fun_induction plain i cs generalizing v with
  | case1 => cases h
  | case2 cs =>
    cases h
    exact ⟨['"'], List.cons_ne_nil _ _, rfl, plain_quote i⟩
  | case3 => cases h
  | case4 => cases h
  | case5 cs d rest' he _ _ ih =>
    obtain ⟨⟨w, r⟩, hw, heq⟩ := Option.map_eq_some_iff.1 h
    cases heq
    obtain ⟨body, hne, rfl, hbody⟩ := ih hw
    obtain ⟨digits, rfl, hdigits⟩ := exists_of_escape he
    refine ⟨'\\' :: (digits ++ body), List.cons_ne_nil _ _, by simp, fun ds => ?_⟩
    have hescape : escape (digits ++ body ++ ds) = some (d, body ++ ds) := by
      rw [List.append_assoc]
      obtain ⟨b, bs, rfl⟩ := List.exists_cons_of_ne_nil hne
      exact hdigits _ rfl
    rw [List.cons_append, plain_escape i hescape, hbody]
    rfl
  | case6 c ds hquote hline hslash hbrace ih =>
    obtain ⟨⟨w, r⟩, hw, heq⟩ := Option.map_eq_some_iff.1 h
    cases heq
    obtain ⟨body, -, rfl, hbody⟩ := ih hw
    refine ⟨c :: c :: body, List.cons_ne_nil _ _, rfl, fun es => ?_⟩
    rw [List.cons_append, List.cons_append, plain.eq_def]
    dsimp only
    rw [if_neg hquote, if_neg hline, if_neg hslash, if_pos hbrace, if_pos rfl, hbody]
    rfl
  | case7 => cases h
  | case8 => cases h
  | case9 c cs hquote hline hslash hbrace ih =>
    obtain ⟨⟨w, r⟩, hw, heq⟩ := Option.map_eq_some_iff.1 h
    cases heq
    obtain ⟨body, -, rfl, hbody⟩ := ih hw
    refine ⟨c :: body, List.cons_ne_nil _ _, rfl, fun es => ?_⟩
    rw [List.cons_append, plain.eq_def]
    dsimp only
    rw [if_neg hquote, if_neg hline, if_neg hslash, if_neg hbrace, hbody]
    rfl

/-- A verbatim string ends at a quotation mark that is not doubled. -/
theorem exists_of_verbatim {i : Bool} {cs v rest : List Char}
    (h : verbatim i cs = some (v, rest)) :
    rest.head? ≠ some '"' ∧
      ∃ body, cs = body ++ rest ∧
        ∀ ds, ds.head? ≠ some '"' → verbatim i (body ++ ds) = some (v, ds) := by
  fun_induction verbatim i cs generalizing v with
  | case1 => cases h
  | case2 ds ih =>
    obtain ⟨⟨w, r⟩, hw, heq⟩ := Option.map_eq_some_iff.1 h
    cases heq
    obtain ⟨hend, body, rfl, hbody⟩ := ih hw
    refine ⟨hend, '"' :: '"' :: body, rfl, fun es hes => ?_⟩
    rw [List.cons_append, List.cons_append, verbatim.eq_def]
    dsimp only
    rw [if_pos rfl]
    exact congrArg (Option.map fun (v, r) => ('"' :: v, r)) (hbody es hes)
  | case3 cs hquote =>
    cases h
    refine ⟨fun hhead => ?_, ['"'], rfl, fun es hes => ?_⟩
    · obtain ⟨ds, rfl⟩ := List.head?_eq_some_iff.1 hhead
      exact hquote ds rfl
    · rw [List.singleton_append, verbatim.eq_def]
      dsimp only
      rw [if_pos rfl]
      split
      · exact absurd rfl hes
      · rfl
  | case4 c _ hquote hbrace ih =>
    obtain ⟨⟨w, r⟩, hw, heq⟩ := Option.map_eq_some_iff.1 h
    cases heq
    obtain ⟨hend, body, rfl, hbody⟩ := ih hw
    refine ⟨hend, c :: c :: body, rfl, fun es hes => ?_⟩
    rw [List.cons_append, List.cons_append, verbatim.eq_def]
    dsimp only
    rw [if_neg hquote, if_pos hbrace, if_pos rfl, hbody es hes]
    rfl
  | case5 => cases h
  | case6 => cases h
  | case7 c cs hquote hbrace ih =>
    obtain ⟨⟨w, r⟩, hw, heq⟩ := Option.map_eq_some_iff.1 h
    cases heq
    obtain ⟨hend, body, rfl, hbody⟩ := ih hw
    refine ⟨hend, c :: body, rfl, fun es hes => ?_⟩
    rw [List.cons_append, verbatim.eq_def]
    dsimp only
    rw [if_neg hquote, if_neg hbrace, hbody es hes]
    rfl

section Raw

/-- The marks that open or close a raw string. -/
def quotes (marks : Nat) : List Char := List.replicate marks '"'

theorem drop_quotes_append (marks : Nat) (ds : List Char) :
    (quotes marks ++ ds).drop marks = ds :=
  List.drop_left' List.length_replicate

theorem quoteRun_append (as bs : List Char) :
    quoteRun (as ++ bs)
      = if quoteRun as = as.length then as.length + quoteRun bs else quoteRun as := by
  rw [quoteRun, List.takeWhile_append]
  split
  · rw [if_pos ‹_›, List.length_append, quoteRun]
  · rw [if_neg ‹_›, quoteRun]

theorem quoteRun_quotes_append (marks : Nat) (ds : List Char) :
    quoteRun (quotes marks ++ ds) = marks + quoteRun ds := by
  have hrun : quoteRun (quotes marks) = (quotes marks).length := by
    rw [quoteRun, quotes, List.takeWhile_replicate, if_pos (by decide)]
  rw [quoteRun_append, if_pos hrun, quotes, List.length_replicate]

theorem quotes_append_drop {marks : Nat} {cs : List Char} (h : marks ≤ quoteRun cs) :
    quotes marks ++ cs.drop marks = cs := by
  have hrun : cs.takeWhile (· == '"') = quotes (quoteRun cs) :=
    List.eq_replicate_of_mem fun c hc => eq_of_beq (List.all_eq_true.1 List.all_takeWhile c hc)
  have htake : cs.take marks = quotes marks := by
    rw [← List.takeWhile_append_dropWhile (p := (· == '"')) (l := cs), hrun,
      List.take_append_of_le_length (by rwa [quotes, List.length_replicate]), quotes, quotes,
      List.take_replicate, Nat.min_eq_left h]
  rw [← htake, List.take_append_drop]

/-- In front of a run that is long enough no shorter one depends on what follows. -/
theorem quoteRun_append_quotes {marks : Nat} (as : List Char) {bs : List Char}
    (h : quoteRun (as ++ (quotes marks ++ bs)) < marks) (ds : List Char) :
    quoteRun (as ++ (quotes marks ++ ds)) = quoteRun (as ++ (quotes marks ++ bs)) := by
  rw [quoteRun_append, quoteRun_quotes_append] at h
  rw [quoteRun_append, quoteRun_append as]
  split at h
  · omega
  · rw [if_neg ‹_›, if_neg ‹_›]

theorem quoteRun_eq_zero {cs : List Char} : quoteRun cs = 0 ↔ cs.head? ≠ some '"' := by
  cases cs with
  | nil => simp [quoteRun]
  | cons c cs => by_cases hc : c = '"' <;> simp [quoteRun, hc]

theorem rawBody_quotes {marks : Nat} (hmarks : 0 < marks) (rest : List Char) :
    rawBody marks (quotes marks ++ rest) = some ([], rest) := by
  obtain ⟨n, rfl⟩ := Nat.exists_eq_succ_of_ne_zero hmarks.ne'
  have hrun : n + 1 ≤ quoteRun (quotes (n + 1) ++ rest) := by
    rw [quoteRun_quotes_append]
    exact Nat.le_add_right _ _
  have hdrop := drop_quotes_append (n + 1) rest
  rw [quotes, List.replicate_succ, List.cons_append] at hrun hdrop
  rw [quotes, List.replicate_succ, List.cons_append, rawBody, if_pos hrun, hdrop]

/-- The body of a raw string ends at the first run of as many marks as opened it. -/
theorem exists_of_rawBody {marks : Nat} (hmarks : 0 < marks) : ∀ {cs body rest : List Char},
    rawBody marks cs = some (body, rest) →
      cs = body ++ (quotes marks ++ rest) ∧
        ∀ ds, rawBody marks (body ++ (quotes marks ++ ds)) = some (body, ds)
  | [], _, _, h => by cases h
  | c :: cs, body, rest, h => by
    rw [rawBody] at h
    split at h
    · rename_i hclose
      cases h
      exact ⟨(quotes_append_drop hclose).symm, rawBody_quotes hmarks⟩
    · rename_i hopen
      obtain ⟨⟨w, r⟩, hw, heq⟩ := Option.map_eq_some_iff.1 h
      cases heq
      obtain ⟨rfl, hbody⟩ := exists_of_rawBody hmarks hw
      refine ⟨rfl, fun ds => ?_⟩
      have hrun : quoteRun (c :: (w ++ (quotes marks ++ ds)))
          = quoteRun (c :: (w ++ (quotes marks ++ rest))) :=
        quoteRun_append_quotes (c :: w) (Nat.lt_of_not_le hopen) ds
      rw [List.cons_append, rawBody, hrun, if_neg hopen, hbody]
      rfl

theorem exists_of_raw {marks : Nat} (hmarks : 0 < marks) {i : Bool} {cs v rest : List Char}
    (h : raw marks i cs = some (v, rest)) :
    ∃ body, cs = body ++ (quotes marks ++ rest) ∧
      ∀ ds, raw marks i (body ++ (quotes marks ++ ds)) = some (v, ds) := by
  obtain ⟨⟨body, r⟩, hbody, hvalue⟩ := Option.bind_eq_some_iff.1 h
  dsimp only at hvalue
  split at hvalue
  · cases hvalue
  · rename_i hholes
    obtain ⟨u, hu, heq⟩ := Option.map_eq_some_iff.1 hvalue
    cases heq
    obtain ⟨hcs, hread⟩ := exists_of_rawBody hmarks hbody
    refine ⟨body, hcs, fun ds => ?_⟩
    rw [raw, hread, Option.bind_some]
    dsimp only
    rw [if_neg hholes, hu]
    rfl

end Raw

/-- An empty string alone can be gone on with, by a third quotation mark. -/
theorem exists_of_quotedText {i : Bool} {cs v rest : List Char}
    (h : quotedText i ('"' :: cs) = some (v, rest)) :
    ∃ body, cs = body ++ rest ∧ ∀ ds, (ds.head? = some '"' → rest.head? = some '"') →
      quotedText i ('"' :: (body ++ ds)) = some (v, ds) := by
  have hrun (ds : List Char) : quoteRun ('"' :: ds) = quoteRun ds + 1 := rfl
  simp only [quotedText] at h
  split at h
  · rename_i hmarks
    obtain ⟨marks, hopening⟩ : ∃ marks, quoteRun ('"' :: cs) = marks + 1 := ⟨_, hrun cs⟩
    rw [hopening] at h hmarks
    have hpos : 0 < marks + 1 := Nat.succ_pos marks
    obtain ⟨body, hdrop, hbody⟩ := exists_of_raw hpos h
    have htext := quotes_append_drop (Nat.le_of_eq hopening.symm)
    rw [hdrop] at htext
    have hzero : quoteRun (body ++ (quotes (marks + 1) ++ rest)) = 0 := by
      rw [← htext, quoteRun_quotes_append] at hopening
      omega
    refine ⟨quotes marks ++ body ++ quotes (marks + 1), ?_, fun ds _ => ?_⟩
    · rw [List.append_assoc, List.append_assoc]
      exact (List.cons.inj htext).2.symm
    · have hds : '"' :: (quotes marks ++ body ++ quotes (marks + 1) ++ ds)
          = quotes (marks + 1) ++ (body ++ (quotes (marks + 1) ++ ds)) := by
        rw [List.append_assoc, List.append_assoc]
        rfl
      have hopening : quoteRun (quotes (marks + 1) ++ (body ++ (quotes (marks + 1) ++ ds)))
          = marks + 1 := by
        rw [quoteRun_quotes_append, quoteRun_append_quotes body (hzero ▸ Nat.succ_pos marks), hzero]
      rw [hds, quotedText]
      simp only [hopening]
      rw [if_pos hmarks, drop_quotes_append]
      exact hbody ds
  · split at h
    · rename_i hempty
      cases h
      have htext := quotes_append_drop (Nat.le_of_eq hempty.symm)
      have hcs : cs = '"' :: ('"' :: cs).drop 2 := (List.cons.inj htext).2.symm
      refine ⟨['"'], hcs, fun ds hds => ?_⟩
      have hend : quoteRun (('"' :: cs).drop 2) = 0 := by
        rw [hcs, hrun, hrun] at hempty
        omega
      have hds : quoteRun ds = 0 :=
        quoteRun_eq_zero.2 fun hhead => quoteRun_eq_zero.1 hend (hds hhead)
      rw [quotedText]
      simp only [List.singleton_append, hrun, hds]
      rfl
    · have hzero : quoteRun cs = 0 := by
        rw [hrun] at *
        omega
      obtain ⟨body, hne, rfl, hbody⟩ := exists_of_plain h
      obtain ⟨b, bs, rfl⟩ := List.exists_cons_of_ne_nil hne
      refine ⟨b :: bs, rfl, fun ds _ => ?_⟩
      have hzero : quoteRun (b :: bs ++ ds) = 0 := by
        rw [quoteRun_eq_zero] at hzero ⊢
        exact hzero
      rw [quotedText]
      simp only [hrun, hzero]
      exact hbody ds

/-- A string stays what it is whatever follows it, except that a further quotation mark may go on
with one that ends in a quotation mark. -/
theorem string?_append {lit v rest ds : List Char}
    (h : string? (lit ++ rest) = some (some (v, rest)))
    (hds : ds.head? = some '"' → rest.head? = some '"') :
    string? (lit ++ ds) = some (some (v, ds)) := by
  -- what is read behind the opening marks is what the literal has behind them
  have hopen (opening : List Char) {cs body : List Char} (hcs : lit ++ rest = opening ++ cs)
      (hbody : cs = body ++ rest) : lit = opening ++ body := by
    rw [hbody, ← List.append_assoc] at hcs
    exact List.append_cancel_right hcs
  have hverbatim {i : Bool} (opening : List Char) {cs : List Char}
      (hcs : lit ++ rest = opening ++ cs) (hread : verbatim i cs = some (v, rest)) :
      ∃ body, lit = opening ++ body ∧ verbatim i (body ++ ds) = some (v, ds) := by
    obtain ⟨hend, body, hbody, hall⟩ := exists_of_verbatim hread
    exact ⟨body, hopen opening hcs hbody, hall ds fun hhead => hend (hds hhead)⟩
  have hquoted {i : Bool} (opening : List Char) {cs : List Char}
      (hcs : lit ++ rest = opening ++ cs) (hread : quotedText i ('"' :: cs) = some (v, rest)) :
      ∃ body, lit = opening ++ body ∧ quotedText i ('"' :: (body ++ ds)) = some (v, ds) := by
    obtain ⟨body, hbody, hall⟩ := exists_of_quotedText hread
    exact ⟨body, hopen opening hcs hbody, hall ds hds⟩
  unfold string? at h
  split at h <;> simp only [Option.some.injEq, reduceCtorEq] at h
  · rename_i cs hcs
    rw [hcs] at h
    obtain ⟨body, rfl, hbody⟩ := hquoted ['"'] hcs h
    exact congrArg some hbody
  · rename_i cs hcs
    obtain ⟨body, rfl, hbody⟩ := hverbatim ['@', '"'] hcs h
    exact congrArg some hbody
  · rename_i cs hcs
    obtain ⟨body, rfl, hbody⟩ := hverbatim ['@', '$', '"'] hcs h
    exact congrArg some hbody
  · rename_i cs hcs
    obtain ⟨body, rfl, hbody⟩ := hverbatim ['$', '@', '"'] hcs h
    exact congrArg some hbody
  · rename_i cs hcs
    obtain ⟨body, rfl, hbody⟩ := hquoted ['$', '"'] hcs h
    exact congrArg some hbody

section Token

variable {cs : List Char} {found : Option (List Char × List Char)}

theorem exists_of_string? (h : string? cs = some found) :
    ∃ c rest, cs = c :: rest ∧ (c = '"' ∨ c = '@' ∨ c = '$') := by
  unfold string? at h
  split at h
  · exact ⟨_, _, rfl, .inl rfl⟩
  · exact ⟨_, _, rfl, .inr (.inl rfl)⟩
  · exact ⟨_, _, rfl, .inr (.inl rfl)⟩
  · exact ⟨_, _, rfl, .inr (.inr rfl)⟩
  · exact ⟨_, _, rfl, .inr (.inr rfl)⟩
  · cases h

theorem scan_string (h : string? cs = some found) :
    scan cs = found.bind fun (value, rest) => (scan rest).map (text value :: ·) := by
  obtain ⟨c, tail, rfl, hc⟩ := exists_of_string? h
  have hspace : ¬isSpace c = true := by
    rcases hc with rfl | rfl | rfl <;> decide
  rw [scan, if_neg hspace]
  split
  all_goals
    rename_i hs
    rw [h] at hs
    cases hs
    try rfl

/-- Where no string starts, the first character decides what token does. -/
theorem scan_unquoted {c : Char} {tail : List Char} (hspace : ¬isSpace c = true)
    (h : string? (c :: tail) = none) :
    scan (c :: tail)
      = if c = '@' && (tail.head?.map isNameStart).getD false then
          (scan (tail.dropWhile isNameRest)).map
            (name (.ofList (tail.takeWhile isNameRest)) :: ·)
        else if isNameStart c then
          (scan (tail.dropWhile isNameRest)).map
            (name (.ofList (c :: tail.takeWhile isNameRest)) :: ·)
        else if c = ':' && tail.head? = some ':' then (scan tail.tail).map (colons :: ·)
        else (scan tail).map (ofChar c :: ·) := by
  rw [scan, if_neg hspace]
  split
  · rename_i hs
    rw [h] at hs
    cases hs
  · rename_i hs
    rw [h] at hs
    cases hs
  · rfl

end Token

end ConstantToken

end TaskWrappers
