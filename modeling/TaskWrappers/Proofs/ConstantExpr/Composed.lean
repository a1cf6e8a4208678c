import TaskWrappers.Proofs.ConstantExpr.Denotation
import TaskWrappers.Proofs.ConstantExpr.Literal
import TaskWrappers.Proofs.Text.Name

/-!
# Sums of constant texts

An expression that has a value keeps it as a part of a larger one. Its tokens are its own in front
of an operator, a parenthesis or white space (`ConstantToken.scan_append`), and reading them goes
as far as before when such tokens follow (`ConstantExpr.sum_append`). So two texts with values, with
a plus between them, have both values one after the other (`ConstantExpr.value?_plus`), and however
such texts are added, put in parentheses and spaced, what is written has the values of all of them
in order (`Model.constantValue_sum`). Nothing is asked of the texts besides their values: they may
be strings, references with or without `global::`, `nameof` or sums themselves.
-/

namespace TaskWrappers

open Text

namespace ConstantToken

/-- A text that goes on with no token before it. -/
def Parted (ds : List Char) : Prop :=
  ∀ c, ds.head? = some c → isNameRest c = false ∧ c ∉ ['"', '@', '$', ':']

theorem parted_cons {c : Char} (h : isNameRest c = false) (hc : c ∉ ['"', '@', '$', ':'])
    (ds : List Char) : Parted (c :: ds) := by
  rintro d ⟨⟩
  exact ⟨h, hc⟩

theorem parted_plus (ds : List Char) : Parted ('+' :: ds) :=
  parted_cons (by decide) (by decide) ds

theorem parted_rightParen (ds : List Char) : Parted (')' :: ds) :=
  parted_cons (by decide) (by decide) ds

theorem parted_nil : Parted [] := nofun

theorem parted_space {c : Char} (hc : isSpace c = true) (ds : List Char) : Parted (c :: ds) := by
  refine parted_cons ?_ ?_ ds
  · rw [Bool.eq_false_iff]
    intro hrest
    rw [isSpace_of_isNameRest hrest] at hc
    cases hc
  · intro hmem
    have hmarks : ['"', '@', '$', ':'].all (!isSpace ·) = true := by decide
    have hsolid := List.all_eq_true.1 hmarks c hmem
    rw [hc] at hsolid
    cases hsolid

theorem Parted.spaces_append {ds : List Char} (hds : Parted ds) : ∀ {spaces : List Char},
    (∀ c ∈ spaces, isSpace c = true) → Parted (spaces ++ ds)
  | [], _ => hds
  | c :: spaces, h => parted_space (h c List.mem_cons_self) (spaces ++ ds)

/-- What the forms of strings that `string?` tells apart start with. -/
def openings : List (List Char) :=
  [['"'], ['@', '"'], ['@', '$', '"'], ['$', '@', '"'], ['$', '"']]

theorem string?_eq_none_iff {cs : List Char} :
    string? cs = none ↔ ∀ opening ∈ openings, ¬ opening <+: cs := by
  constructor
  · intro h opening hopening hprefix
    obtain ⟨rest, rfl⟩ := hprefix
    simp only [openings, List.mem_cons, List.not_mem_nil, or_false] at hopening
    rcases hopening with rfl | rfl | rfl | rfl | rfl <;> cases h
  · intro h
    unfold string?
    split
    · exact absurd ⟨_, rfl⟩ (h ['"'] (by decide))
    · exact absurd ⟨_, rfl⟩ (h ['@', '"'] (by decide))
    · exact absurd ⟨_, rfl⟩ (h ['@', '$', '"'] (by decide))
    · exact absurd ⟨_, rfl⟩ (h ['$', '@', '"'] (by decide))
    · exact absurd ⟨_, rfl⟩ (h ['$', '"'] (by decide))
    · rfl

/-- Where no string starts, none does with more behind it. -/
theorem Parted.string?_append {c : Char} {cs ds : List Char} (hds : Parted ds)
    (h : string? (c :: cs) = none) : string? (c :: (cs ++ ds)) = none := by
  rw [← List.cons_append]
  generalize c :: cs = cs at h ⊢
  rw [string?_eq_none_iff] at h ⊢
  intro opening hopening hprefix
  rcases List.prefix_or_prefix_of_prefix hprefix (List.prefix_append cs ds) with hle | hle
  · exact h opening hopening hle
  · -- an opening that is longer than the text would go on with what follows
    obtain ⟨more, rfl⟩ := hle
    have hmore : more <+: ds := (List.prefix_append_right_inj cs).1 hprefix
    cases more with
    | nil =>
      rw [List.append_nil] at hopening
      exact h cs hopening List.prefix_rfl
    | cons d more =>
      obtain ⟨rest, rfl⟩ := hmore
      have hmarks : openings.all (·.all (· ∈ ['"', '@', '$', ':'])) = true := by decide
      have hd := List.all_eq_true.1 (List.all_eq_true.1 hmarks _ hopening) d (by simp)
      exact (hds d rfl).2 (of_decide_eq_true hd)

/-- A string at the start of a text is all that is read of the text. -/
theorem exists_of_string?_some {cs v rest : List Char} (h : string? cs = some (some (v, rest))) :
    ∃ lit, cs = lit ++ rest := by
  have hopened {i : Bool} (opening : List Char) {cs : List Char}
      (hread : verbatim i cs = some (v, rest)) : ∃ lit, opening ++ cs = lit ++ rest := by
    obtain ⟨-, body, rfl, -⟩ := exists_of_verbatim hread
    exact ⟨opening ++ body, (List.append_assoc ..).symm⟩
  have hquoted {i : Bool} (opening : List Char) {cs : List Char}
      (hread : quotedText i ('"' :: cs) = some (v, rest)) : ∃ lit, opening ++ cs = lit ++ rest := by
    obtain ⟨body, rfl, -⟩ := exists_of_quotedText hread
    exact ⟨opening ++ body, (List.append_assoc ..).symm⟩
  unfold string? at h
  split at h <;> simp only [Option.some.injEq, reduceCtorEq] at h
  · exact hquoted ['"'] h
  · exact hopened ['@', '"'] h
  · exact hopened ['@', '$', '"'] h
  · exact hopened ['$', '@', '"'] h
  · exact hquoted ['$', '"'] h

section Scan

variable {ds : List Char} (hds : Parted ds)
include hds

theorem Parted.breaks : ∀ d, ds.head? = some d → isNameRest d = false :=
  fun d hd => (hds d hd).1

theorem Parted.head?_append {c : Char} (hc : c ∈ ['"', '@', '$', ':']) (cs : List Char) :
    (cs ++ ds).head? = some c ↔ cs.head? = some c := by
  cases cs with
  | nil => exact iff_of_false (fun hd => (hds c hd).2 hc) nofun
  | cons d cs => exact Iff.rfl

theorem Parted.opensName_append (cs : List Char) :
    ((cs ++ ds).head?.map isNameStart).getD false = (cs.head?.map isNameStart).getD false := by
  cases cs with
  | nil =>
    cases ds with
    | nil => rfl
    | cons d ds =>
      refine Bool.eq_false_iff.2 fun hstart => ?_
      have hrest := isNameRest_of_isNameStart hstart
      rw [hds.breaks d rfl] at hrest
      cases hrest
  | cons d cs => rfl

/-- A text keeps its tokens in front of what goes on with none of them. -/
theorem scan_append {cs : List Char} {ts : List ConstantToken} (h : scan cs = some ts) :
    scan (cs ++ ds) = (scan ds).map (ts ++ ·) := by
  have hmap (t : ConstantToken) (us : List ConstantToken) :
      ((scan ds).map (us ++ ·)).map (t :: ·) = (scan ds).map (t :: us ++ ·) := by
    rw [Option.map_map]
    rfl
  have hcolons (tail : List Char) :
      decide ((tail ++ ds).head? = some ':') = decide (tail.head? = some ':') :=
    decide_eq_decide.2 (hds.head?_append (by decide) tail)
  fun_induction scan cs generalizing ts with
  | case1 =>
    cases h
    exact Option.map_id_apply.symm
  | case2 c tail hspace ih =>
    rw [List.cons_append, scan, if_pos hspace]
    exact ih h
  | case3 => cases h
  | case4 c tail hspace value rest hs ih =>
    obtain ⟨us, hus, rfl⟩ := Option.map_eq_some_iff.1 h
    obtain ⟨lit, hlit⟩ := exists_of_string?_some hs
    rw [hlit] at hs ⊢
    have hread := string?_append hs (hds.head?_append (by decide) rest).1
    rw [List.append_assoc, scan_string hread, ← hmap, ← ih hus]
    rfl
  | case5 c tail hspace hs hat ih =>
    obtain ⟨us, hus, rfl⟩ := Option.map_eq_some_iff.1 h
    obtain ⟨htake, hdrop⟩ := takeWhile_append_of_breaks hds.breaks tail
    rw [List.cons_append, scan_unquoted hspace (hds.string?_append hs), hds.opensName_append,
      if_pos hat, htake, hdrop, ih hus, hmap]
  | case6 c tail hspace hs hat hstart ih =>
    obtain ⟨us, hus, rfl⟩ := Option.map_eq_some_iff.1 h
    obtain ⟨htake, hdrop⟩ := takeWhile_append_of_breaks hds.breaks tail
    rw [List.cons_append, scan_unquoted hspace (hds.string?_append hs), hds.opensName_append,
      if_neg hat, if_pos hstart, htake, hdrop, ih hus, hmap]
  | case7 c tail hspace hs hat hstart hcolon ih =>
    obtain ⟨us, hus, rfl⟩ := Option.map_eq_some_iff.1 h
    have htail : (tail ++ ds).tail = tail.tail ++ ds := by
      refine List.tail_append_of_ne_nil ?_
      rintro rfl
      simp at hcolon
    rw [List.cons_append, scan_unquoted hspace (hds.string?_append hs), hds.opensName_append,
      if_neg hat, if_neg hstart, hcolons, if_pos hcolon, htail, ih hus, hmap]
  | case8 c tail hspace hs hat hstart hcolon ih =>
    obtain ⟨us, hus, rfl⟩ := Option.map_eq_some_iff.1 h
    rw [List.cons_append, scan_unquoted hspace (hds.string?_append hs), hds.opensName_append,
      if_neg hat, if_neg hstart, hcolons, if_neg hcolon, ih hus, hmap]

end Scan

theorem scan_spaces_append {cs : List Char} : ∀ {spaces : List Char},
    (∀ c ∈ spaces, isSpace c = true) → scan (spaces ++ cs) = scan cs
  | [], _ => rfl
  | c :: spaces, h => by
    rw [List.cons_append, scan, if_pos (h c List.mem_cons_self)]
    exact scan_spaces_append fun d hd => h d (List.mem_cons_of_mem c hd)

theorem scan_spaces {spaces : List Char} (h : ∀ c ∈ spaces, isSpace c = true) :
    scan spaces = some [] := by
  rw [← List.append_nil spaces, scan_spaces_append h, scan]

theorem scan_mark {c : Char} (hc : c ∈ ['+', '(', ')']) (cs : List Char) :
    scan (c :: cs) = (scan cs).map (ofChar c :: ·) := by
  simp only [List.mem_cons, List.not_mem_nil, or_false] at hc
  rcases hc with rfl | rfl | rfl
  all_goals
    rw [scan, if_neg (by decide)]
    rfl

end ConstantToken

namespace ConstantExpr

open ConstantToken

/-! Reading goes on as far as before if what is behind the tokens belongs to none of them. Where
tokens are left of what was read, they are what ends it. -/

section Append

variable {ts rest more : List ConstantToken} {p value : String}

/-- Nothing that a phrase goes on with stands behind it, if it was not there before. -/
theorem head?_append_ne {phrase : Phrase} {t : ConstantToken} (hmore : ts = [] → Ends phrase more)
    (ht : ¬(t = rightParen ∨ phrase = .term ∧ t = plus)) (hts : ∀ us, ts ≠ t :: us) :
    (ts ++ more).head? ≠ some t := by
  intro hhead
  cases ts with
  | nil => exact ht (hmore rfl t hhead)
  | cons u us =>
    cases hhead
    exact hts us rfl

theorem path_of_head?_ne {first : String} (h : ts.head? ≠ some dot) :
    path first ts = some (first, ts) := by
  unfold path
  split
  · exact absurd rfl h
  · exact absurd rfl h
  · rfl

theorem path_append {first : String} (hmore : rest = [] → Ends .term more)
    (h : path first ts = some (p, rest)) : path first (ts ++ more) = some (p, rest ++ more) := by
  fun_induction path first ts with
  | case1 first n ts ih => exact ih h
  | case2 => cases h
  | case3 first us hmember hdot =>
    cases h
    exact path_of_head?_ne (head?_append_ne hmore (by simp) hdot)

theorem fullPath_append {first : String} (hmore : rest = [] → Ends .term more)
    (h : fullPath first ts = some (p, rest)) :
    fullPath first (ts ++ more) = some (p, rest ++ more) := by
  unfold fullPath at h
  split at h
  · rename_i us
    split at h
    · rename_i hglobal
      split at h
      · rw [List.cons_append, List.cons_append, fullPath, if_pos hglobal]
        exact path_append hmore h
      · cases h
    · rename_i hglobal
      rw [fullPath_eq fun _ => hglobal]
      exact path_append hmore h
  · rename_i hcolons
    have hmore' (hts : ts = []) : Ends .term more := by
      subst hts
      cases h
      exact hmore rfl
    rw [fullPath_eq fun hhead => absurd hhead (head?_append_ne hmore' (by simp) hcolons)]
    exact path_append hmore h

theorem nameof_append {depth angles : Nat} {last : Option String}
    (h : nameof depth angles last ts = some (p, rest)) :
    nameof depth angles last (ts ++ more) = some (p, rest ++ more) := by
  obtain ⟨body, rfl, hbody⟩ := exists_balanced_of_nameof ts h
  rw [nameof_balanced rest body depth angles last hbody] at h
  rw [List.append_assoc, List.cons_append, nameof_balanced _ body depth angles last hbody]
  obtain ⟨n, hn, heq⟩ := Option.map_eq_some_iff.1 h
  cases heq
  rw [hn]
  rfl

variable {lookup : Lookup}

/-- A term is read again, if a sum in its parentheses is. -/
theorem term_append {inner inner' : List ConstantToken → Option (String × List ConstantToken)}
    (hinner : ∀ {ts value rest}, inner ts = some (value, rightParen :: rest) →
      inner' (ts ++ more) = some (value, rightParen :: rest ++ more))
    (hmore : rest = [] → Ends .term more) (h : term lookup inner ts = some (value, rest)) :
    term lookup inner' (ts ++ more) = some (value, rest ++ more) := by
  unfold term at h
  split at h
  · cases h
    rfl
  · split at h
    · rename_i hsum
      cases h
      rw [List.cons_append, term, hinner hsum]
      rfl
    · cases h
  · exact nameof_append h
  · rename_i first ts hnameof
    obtain ⟨⟨q, us⟩, hpath, h⟩ := Option.bind_eq_some_iff.1 h
    obtain ⟨w, hw, heq⟩ := Option.bind_eq_some_iff.1 h
    cases heq
    have hmore' (hts : ts = []) : Ends .term more := by
      subst hts
      cases hpath
      exact hmore rfl
    have hparen (hfirst : first = "nameof") : (ts ++ more).head? ≠ some leftParen :=
      head?_append_ne hmore' (by simp) fun us hts => hnameof us hts hfirst
    rw [List.cons_append, term_path hparen, fullPath_append hmore hpath, Option.bind_some]
    dsimp only
    rw [hw]
    rfl
  · cases h

/-- A sum is read again with as much room or more. -/
theorem sum_append : ∀ {n k : Nat} {ts rest : List ConstantToken} {value : String}, n ≤ k →
    (rest = [] → Ends .sum more) → sum lookup n ts = some (value, rest) →
      sum lookup k (ts ++ more) = some (value, rest ++ more)
  | 0, _, _, _, _, _, _, h => by cases h
  | n + 1, k, ts, rest, value, hle, hmore, h => by
    obtain ⟨k, rfl⟩ : ∃ j, k = j + 1 := ⟨k - 1, by omega⟩
    have hle : n ≤ k := Nat.le_of_succ_le_succ hle
    rw [sum_succ] at h ⊢
    obtain ⟨⟨first, us⟩, hfirst, hread⟩ := Option.bind_eq_some_iff.1 h
    have hterm (hus : us = [] → Ends .term more) :
        term lookup (sum lookup k) (ts ++ more) = some (first, us ++ more) :=
      term_append (fun hsum => sum_append hle nofun hsum) hus hfirst
    change readMore lookup n first us = some (value, rest) at hread
    unfold readMore at hread
    split at hread
    · obtain ⟨⟨w, vs⟩, hmoreSum, heq⟩ := Option.map_eq_some_iff.1 hread
      cases heq
      rw [hterm nofun, Option.bind_some]
      dsimp only
      rw [List.cons_append, readMore, sum_append hle hmore hmoreSum]
      rfl
    · rename_i hplus
      cases hread
      rw [hterm fun hus => (hmore hus).term, Option.bind_some]
      refine readMore_of_ne fun vs heq => ?_
      exact head?_append_ne hmore (by simp) hplus (congrArg List.head? heq)

/-- Behind a plus, what is left of the first sum's room is enough for the second. -/
theorem sum_plus : ∀ {n j : Nat} {ts us : List ConstantToken} {value value' : String},
    sum lookup n ts = some (value, []) → sum lookup j us = some (value', rest) →
      sum lookup (n + j) (ts ++ plus :: us) = some (value ++ value', rest)
  | 0, _, _, _, _, _, h, _ => by cases h
  | n + 1, j, ts, us, value, value', h, h' => by
    rw [Nat.add_right_comm, sum_succ]
    rw [sum_succ] at h
    obtain ⟨⟨first, vs⟩, hfirst, hread⟩ := Option.bind_eq_some_iff.1 h
    have hterm : term lookup (sum lookup (n + j)) (ts ++ plus :: us)
        = some (first, vs ++ plus :: us) :=
      term_append (fun hsum => sum_append (Nat.le_add_right n j) nofun hsum)
        (fun _ => ends_plus us) hfirst
    rw [hterm, Option.bind_some]
    change readMore lookup n first vs = some (value, []) at hread
    dsimp only
    unfold readMore at hread
    split at hread
    · obtain ⟨⟨w, vs⟩, hmore, heq⟩ := Option.map_eq_some_iff.1 hread
      cases heq
      rw [List.cons_append, readMore, sum_plus hmore h', Option.map_some, String.append_assoc]
    · cases hread
      have hsum : sum lookup (n + j) (us ++ []) = some (value', rest ++ []) :=
        sum_append (Nat.le_add_left j n) (fun _ => ends_nil .sum) h'
      rw [List.append_nil, List.append_nil] at hsum
      rw [List.nil_append, readMore, hsum]
      rfl

/-- In parentheses a sum that is all of its tokens is a sum again. -/
theorem sum_parens {n k : Nat} (hle : n ≤ k) (h : sum lookup n ts = some (value, [])) :
    sum lookup (k + 1) (leftParen :: (ts ++ [rightParen])) = some (value, []) := by
  have hsum := sum_append hle (fun _ => ends_rightParen .sum []) h
  rw [sum_succ, term, hsum]
  rfl

end Append

section Value

variable {lookup : Lookup} {a b x y : String}

theorem value?_eq_some_iff : value? lookup a = some x ↔
    ∃ ts, scan a.toList = some ts ∧ sum lookup (ts.length + 1) ts = some (x, []) := by
  constructor
  · intro h
    obtain ⟨ts, hscan, h⟩ := Option.bind_eq_some_iff.1 h
    obtain ⟨⟨value, rest⟩, hsum, h⟩ := Option.bind_eq_some_iff.1 h
    cases rest with
    | nil =>
      cases h
      exact ⟨ts, hscan, hsum⟩
    | cons t rest => cases h
  · rintro ⟨ts, hscan, hsum⟩
    rw [value?, hscan]
    show (sum lookup (ts.length + 1) ts).bind _ = _
    rw [hsum]
    rfl

theorem value?_plus (ha : value? lookup a = some x) (hb : value? lookup b = some y) :
    value? lookup (a ++ "+" ++ b) = some (x ++ y) := by
  obtain ⟨ts, hscan, hsum⟩ := value?_eq_some_iff.1 ha
  obtain ⟨us, hscan', hsum'⟩ := value?_eq_some_iff.1 hb
  refine value?_eq_some_iff.2 ⟨ts ++ plus :: us, ?_, ?_⟩
  · have htext : (a ++ "+" ++ b).toList = a.toList ++ '+' :: b.toList := by
      simp [String.toList_append]
    rw [htext, scan_append (parted_plus b.toList) hscan, scan_mark (by decide), hscan']
    rfl
  · have hroom : (ts ++ plus :: us).length + 1 = ts.length + 1 + (us.length + 1) := by
      simp only [List.length_append, List.length_cons]
      omega
    rw [hroom]
    exact sum_plus hsum hsum'

theorem value?_parens (ha : value? lookup a = some x) :
    value? lookup ("(" ++ a ++ ")") = some x := by
  obtain ⟨ts, hscan, hsum⟩ := value?_eq_some_iff.1 ha
  refine value?_eq_some_iff.2 ⟨leftParen :: (ts ++ [rightParen]), ?_, ?_⟩
  · have htext : ("(" ++ a ++ ")").toList = '(' :: (a.toList ++ [')']) := by
      simp [String.toList_append]
    rw [htext, scan_mark (by decide), scan_append (parted_rightParen []) hscan,
      scan_mark (by decide), scan]
    rfl
  · refine sum_parens ?_ hsum
    simp only [List.length_append, List.length_cons]
    omega

theorem value?_spaced {before after : String} (hbefore : ∀ c ∈ before.toList, isSpace c = true)
    (hafter : ∀ c ∈ after.toList, isSpace c = true) (ha : value? lookup a = some x) :
    value? lookup (before ++ a ++ after) = some x := by
  obtain ⟨ts, hscan, hsum⟩ := value?_eq_some_iff.1 ha
  have hparted : Parted after.toList := by
    have := parted_nil.spaces_append hafter
    rwa [List.append_nil] at this
  refine value?_eq_some_iff.2 ⟨ts, ?_, hsum⟩
  rw [String.toList_append, String.toList_append, List.append_assoc, scan_spaces_append hbefore,
    scan_append hparted hscan, scan_spaces hafter, Option.map_some, List.append_nil]

end Value

/-- White space or nothing. -/
abbrev Blank := { space : String // space.toList.all isSpace = true }

/-- How constant texts are put together: added, in parentheses, with white space around. -/
inductive Arrangement where
  | part (expression : String)
  | parens (inner : Arrangement)
  | plus (left right : Arrangement)
  | spaced (before : Blank) (inner : Arrangement) (after : Blank)

namespace Arrangement

/-- The texts that are added, in order. -/
def parts : Arrangement → List String
  | part expression => [expression]
  | parens inner => inner.parts
  | plus left right => left.parts ++ right.parts
  | spaced _ inner _ => inner.parts

def written : Arrangement → String
  | part expression => expression
  | parens inner => "(" ++ inner.written ++ ")"
  | plus left right => left.written ++ "+" ++ right.written
  | spaced before inner after => before.1 ++ inner.written ++ after.1

/-- What is put together has the values of its parts in order. -/
theorem value?_written {lookup : Lookup} : ∀ {e : Arrangement} {values : List String},
    e.parts.mapM (value? lookup) = some values →
      value? lookup e.written = some (String.join values)
  | part expression, values, h => by
    rw [parts, List.mapM_cons, List.mapM_nil] at h
    obtain ⟨value, hvalue, h⟩ := Option.bind_eq_some_iff.1 h
    cases h
    rw [written, String.join_cons, String.join_nil, String.append_empty, hvalue]
  | parens inner, values, h => value?_parens (value?_written (e := inner) h)
  | plus left right, values, h => by
    rw [parts, List.mapM_append] at h
    obtain ⟨values, hleft, h⟩ := Option.bind_eq_some_iff.1 h
    obtain ⟨values', hright, h⟩ := Option.bind_eq_some_iff.1 h
    cases h
    rw [String.join_append]
    exact value?_plus (value?_written hleft) (value?_written hright)
  | spaced before inner after, values, h =>
    value?_spaced (List.all_eq_true.1 before.2) (List.all_eq_true.1 after.2)
      (value?_written (e := inner) h)

end Arrangement

end ConstantExpr

/-- Two texts with values have both values with a plus between them, and one has its value in
parentheses. So any number of them that are added, however they stand in parentheses and with
whatever white space, have the values of all in order. -/
theorem Model.constantValue_sum (m : Model) (s : Scope) :
    (∀ {a b x y : String}, m.constantValue s a = some x → m.constantValue s b = some y →
      m.constantValue s (a ++ " + " ++ b) = some (x ++ y)) ∧
    (∀ {a x : String}, m.constantValue s a = some x →
      m.constantValue s ("(" ++ a ++ ")") = some x) ∧
    ∀ {e : ConstantExpr.Arrangement} {values : List String},
      e.parts.mapM (m.constantValue s) = some values →
        m.constantValue s e.written = some (String.join values) := by
  have hblank : ∀ c ∈ " ".toList, isSpace c = true := List.all_eq_true.1 (by decide)
  have hnone : ∀ c ∈ "".toList, isSpace c = true := nofun
  have hspaces (a b : String) : a ++ " + " ++ b = "" ++ a ++ " " ++ "+" ++ (" " ++ b ++ "") :=
    String.toList_inj.1 (by simp)
  simp only [constantValue, ConstantExpr.valueWithin_succ]
  refine ⟨fun ha hb => ?_, ConstantExpr.value?_parens, ConstantExpr.Arrangement.value?_written⟩
  rw [hspaces]
  exact ConstantExpr.value?_plus (ConstantExpr.value?_spaced hnone hblank ha)
    (ConstantExpr.value?_spaced hblank hnone hb)

/-- One constant of a namespace. -/
def hello : Model where
  types := []
  constants := [⟨"App.Names.Greet", "\"Hello\"", ⟨some "App", ["Names"], []⟩⟩]
  globalUsings := []
  implicitSpaces := []

/-- A sum over two lines, whose parts end and start in what strings, names and paths are made of. -/
def helloOrder : ConstantExpr.Arrangement :=
  .plus
    (.spaced ⟨"", rfl⟩
      (.parens (.plus (.part "Names.Greet") (.spaced ⟨"", rfl⟩ (.part "@\",\"")
        ⟨" ", by decide⟩)))
      ⟨"\n  ", by decide⟩)
    (.plus (.part "nameof(Order)") (.part "global::App.Names.Greet"))

theorem constantValue_sum_hello :
    hello.constantValue .global ("App.Names.Greet" ++ " + " ++ "$\"!\"") = some "Hello!" ∧
      hello.constantValue .global ("(" ++ "App.Names.Greet" ++ ")") = some "Hello" ∧
      hello.constantValue ⟨some "App", [], []⟩
        "(Names.Greet+@\",\" )\n  +nameof(Order)+global::App.Names.Greet"
          = some "Hello,OrderHello" := by
  have hwritten : helloOrder.written
      = "(Names.Greet+@\",\" )\n  +nameof(Order)+global::App.Names.Greet" := by
    decide
  refine ⟨?_, ?_, ?_⟩
  · exact (hello.constantValue_sum .global).1 (x := "Hello") (y := "!") (by decide +kernel)
      (by decide +kernel)
  · exact (hello.constantValue_sum .global).2.1 (by decide +kernel)
  · have hparts : helloOrder.parts.mapM (hello.constantValue ⟨some "App", [], []⟩)
        = some ["Hello", ",", "Order", "Hello"] := by
      decide +kernel
    rw [← hwritten]
    exact (hello.constantValue_sum ⟨some "App", [], []⟩).2.2 hparts

end TaskWrappers
