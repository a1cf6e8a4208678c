import TaskWrappers.Proofs.ConstantExpr.Position
import TaskWrappers.Proofs.ConstantExpr.Reader
import TaskWrappers.Proofs.ConstantExpr.Denotation
import TaskWrappers.Proofs.Except
import TaskWrappers.Proofs.Text.Name

/-!
# Reading expressions within bounds

The tokens of an expression are read in rounds, each from where the one before it ended, and its
value is then taken from the tokens by position as well. Both go through on every text
(`tokensOf_eq`, `evaluate_eq`): no round takes a character or a part that is not there or ends where
it started, and `nameof` closes no parenthesis that is not open. So every expression is either read
to its end or found to have no value, wherever a string in it breaks off.

A reader of sums calls that of terms and is called by it for what stands in parentheses. What pays
for the way back is the position, which is then behind the parenthesis.
-/

namespace TaskWrappers

open Text

namespace ConstantToken

section Scan

/-- The first token of a text that starts with a character, if it is no white space, and what
follows. -/
def firstToken (c : Char) (tail : List Char) : Option (Option ConstantToken × List Char) :=
  if isSpace c then some (none, tail)
  else match string? (c :: tail) with
    | some found => found.map fun (value, rest) => (some (text value), rest)
    | none =>
      if c = '@' && (tail.head?.map isNameStart).getD false then
        some (some (name (.ofList (tail.takeWhile isNameRest))), tail.dropWhile isNameRest)
      else if isNameStart c then
        some (some (name (.ofList (c :: tail.takeWhile isNameRest))), tail.dropWhile isNameRest)
      else if c = ':' && tail.head? = some ':' then some (some colons, tail.tail)
      else some (some (ofChar c), tail)

theorem scan_cons (c : Char) (tail : List Char) : scan (c :: tail)
    = (firstToken c tail).bind fun (token, rest) => (scan rest).map (token.toList ++ ·) := by
  rw [firstToken]
  by_cases hspace : isSpace c = true
  · rw [scan, if_pos hspace, if_pos hspace, Option.bind_some]
    exact (congrFun Option.map_id _).symm
  · rw [if_neg hspace]
    cases hstring : string? (c :: tail) with
    | some found =>
      rw [scan_string hstring]
      cases found <;> rfl
    | none =>
      rw [scan_unquoted hspace hstring]
      dsimp only
      split
      · rfl
      · split
        · rfl
        · split <;> rfl

/-- A string that starts at a position with a character. -/
def stringAt? (cs : List Char) (c : Char) (i : Nat) : Option (Checked (List Char)) :=
  if c = '"' then some (quotedAt cs false i)
  else if c = '@' ∧ cs[i + 1]? = some '"' then some (verbatimAt cs false (i + 1))
  else if c = '@' ∧ cs[i + 1]? = some '$' ∧ cs[i + 2]? = some '"' then
    some (verbatimAt cs true (i + 2))
  else if c = '$' ∧ cs[i + 1]? = some '@' ∧ cs[i + 2]? = some '"' then
    some (verbatimAt cs true (i + 2))
  else if c = '$' ∧ cs[i + 1]? = some '"' then some (quotedAt cs true (i + 1))
  else none

/-- The token that starts at a position, if it is no white space, and where it ends. -/
def tokenAt (cs : List Char) (i : Nat) :
    Except Misstep (Option (Option ConstantToken × Nat)) := do
  let c ← elementAt cs i
  if isSpace c then return some (none, i + 1)
  match stringAt? cs c i with
  | some read => return (← read).map fun (value, stop) => (some (text value), stop)
  | none =>
    if c = '@' && (cs[i + 1]?.map isNameStart).getD false then
      return (← nameAt cs (i + 1)).map fun (word, stop) => (some (name (.ofList word)), stop)
    else if isNameStart c then
      return (← nameAt cs i).map fun (word, stop) => (some (name (.ofList word)), stop)
    else if c = ':' && cs[i + 1]? = some ':' then return some (some colons, i + 2)
    else return some (some (ofChar c), i + 1)

/-- A round of the loop that reads all tokens of a text. -/
def scanRound (cs : List Char) (i : Nat) : Except Misstep (Round ConstantToken) :=
  if i < cs.length then (tokenAt cs i).map fun
    | none => .broken
    | some (token, next) => .more token next
  else .ok (.closed i)

/-- The tokens of a text. -/
def tokensOf (cs : List Char) : Except Misstep (Option (List ConstantToken)) :=
  (rounds cs (scanRound cs) 0).map (Option.map Prod.fst)

variable {cs tail : List Char} {c : Char} {i : Nat}

theorem stringAt?_follows (h : cs.drop i = c :: tail) :
    (stringAt? cs c i = none ∧ string? (c :: tail) = none) ∨
      ∃ read found, stringAt? cs c i = some read ∧ string? (c :: tail) = some found ∧
        Follows cs i read found := by
  have hnext : cs[i + 1]? = tail.head? := getElem?_succ_of_drop h
  have hsecond {d : Char} {rest : List Char} (htail : tail = d :: rest) :
      cs[i + 2]? = rest.head? :=
    getElem?_succ_of_drop ((drop_succ h).trans htail)
  unfold string?
  split
  · rename_i rest heq
    cases heq
    exact .inr ⟨_, _, if_pos rfl, rfl, h ▸ quotedAt_follows (lt_of_drop h)⟩
  · rename_i rest heq
    cases heq
    refine .inr ⟨verbatimAt cs false (i + 1), _, ?_, rfl, ?_⟩
    · simp [stringAt?, hnext]
    · rw [← drop_succ (drop_succ h)]
      exact (verbatimAt_follows (i + 1)).of_le (Nat.le_succ i)
  · rename_i rest heq
    cases heq
    refine .inr ⟨verbatimAt cs true (i + 2), _, ?_, rfl, ?_⟩
    · simp [stringAt?, hnext, hsecond rfl]
    · rw [← drop_succ (drop_succ (drop_succ h))]
      exact (verbatimAt_follows (i + 2)).of_le (Nat.le_add_right i 2)
  · rename_i rest heq
    cases heq
    refine .inr ⟨verbatimAt cs true (i + 2), _, ?_, rfl, ?_⟩
    · simp [stringAt?, hnext, hsecond rfl]
    · rw [← drop_succ (drop_succ (drop_succ h))]
      exact (verbatimAt_follows (i + 2)).of_le (Nat.le_add_right i 2)
  · rename_i rest heq
    cases heq
    refine .inr ⟨quotedAt cs true (i + 1), _, ?_, rfl, ?_⟩
    · simp [stringAt?, hnext]
    · rw [← drop_succ h]
      exact (quotedAt_follows (lt_of_drop (drop_succ h))).of_le (Nat.le_succ i)
  · rename_i hquote hverbatim hat hdollar hholes
    refine .inl ⟨?_, rfl⟩
    have hhead {d : Char} (hd : cs[i + 1]? = some d) : ∃ rest, tail = d :: rest :=
      List.head?_eq_some_iff.1 (hnext.symm.trans hd)
    rw [stringAt?, if_neg, if_neg, if_neg, if_neg, if_neg]
    · rintro ⟨rfl, hd⟩
      obtain ⟨rest, rfl⟩ := hhead hd
      exact hholes rest rfl
    · rintro ⟨rfl, hd, he⟩
      obtain ⟨rest, rfl⟩ := hhead hd
      obtain ⟨more, rfl⟩ := List.head?_eq_some_iff.1 ((hsecond rfl).symm.trans he)
      exact hdollar more rfl
    · rintro ⟨rfl, hd, he⟩
      obtain ⟨rest, rfl⟩ := hhead hd
      obtain ⟨more, rfl⟩ := List.head?_eq_some_iff.1 ((hsecond rfl).symm.trans he)
      exact hat more rfl
    · rintro ⟨rfl, hd⟩
      obtain ⟨rest, rfl⟩ := hhead hd
      exact hverbatim rest rfl
    · rintro rfl
      exact hquote tail rfl

theorem tokenAt_follows (h : cs.drop i = c :: tail) :
    Follows cs i (tokenAt cs i) (firstToken c tail) := by
  rw [tokenAt, elementAt_of_drop h, firstToken]
  dsimp only [bind, Except.bind]
  split
  · rw [← drop_succ h]
    exact follows_some _ (Nat.lt_succ_self i) (lt_of_drop h)
  · obtain ⟨hread, hfound⟩ | ⟨read, found, hread, hfound, hfollows⟩ := stringAt?_follows h
    · rw [hread, hfound, getElem?_succ_of_drop h]
      dsimp only
      split
      · rename_i hat
        rw [Bool.and_eq_true] at hat
        cases tail with
        | nil => cases hat.2
        | cons d tail =>
          exact ((nameAt_follows (drop_succ h) (isNameRest_of_isNameStart hat.2)).map fun word =>
            some (name (.ofList word))).of_le (Nat.le_succ i)
      · split
        · rename_i hstart
          have hc : isNameRest c = true := isNameRest_of_isNameStart hstart
          rw [← List.takeWhile_cons_of_pos hc, ← List.dropWhile_cons_of_pos hc]
          exact (nameAt_follows h hc).map fun word => some (name (.ofList word))
        · split
          · rename_i hcolons
            rw [Bool.and_eq_true] at hcolons
            obtain ⟨rest, rfl⟩ := List.head?_eq_some_iff.1 (of_decide_eq_true hcolons.2)
            rw [List.tail_cons, ← drop_succ (drop_succ h)]
            exact follows_some _ (Nat.lt_add_of_pos_right Nat.two_pos) (succ_le_of_drop h)
          · rw [← drop_succ h]
            exact follows_some _ (Nat.lt_succ_self i) (lt_of_drop h)
    · rw [hread, hfound]
      exact hfollows.map fun value => some (text value)

/-- From any position on the loop reads the tokens of what is left. -/
theorem rounds_scan (cs : List Char) (i : Nat) :
    (rounds cs (scanRound cs) i).map (Option.map Prod.fst) = .ok (scan (cs.drop i)) := by
  by_cases hi : i < cs.length
  · have htext := List.drop_eq_getElem_cons hi
    rw [rounds, scanRound, if_pos hi, htext, scan_cons]
    obtain ⟨hread, hfound⟩ | ⟨token, next, hread, hfound, hnext, hle⟩ := tokenAt_follows htext
    · rw [hread, hfound]
      rfl
    · obtain ⟨rest, hrest, hscan⟩ := Except.exists_of_map_eq_ok (rounds_scan cs next)
      rw [hread, hfound]
      dsimp only [Except.map]
      rw [if_pos ⟨hnext, hle⟩, hrest, Option.bind_some, ← hscan]
      cases rest <;> rfl
  · rw [rounds, scanRound, if_neg hi, List.drop_eq_nil_of_le (Nat.le_of_not_lt hi), scan]
    rfl
termination_by cs.length - i

theorem tokensOf_eq (cs : List Char) : tokensOf cs = .ok (scan cs) :=
  rounds_scan cs 0

end Scan

end ConstantToken

namespace ConstantExpr

open ConstantToken

section Value

/-- How a path is given the value of the constant it names, if that goes through. -/
abbrev CheckedLookup := String → Except Misstep (Option String)

/-- What `nameof` stands for, where the numbers of open parentheses and angle brackets are counted
from a position in its parentheses on. -/
def nameofAt (ts : List ConstantToken) (parens angles : Nat) (last : Option String) (i : Nat) :
    Except Misstep (Option (String × Nat)) :=
  if i < ts.length then do
    match ← elementAt ts i with
    | leftParen => nameofAt ts (parens + 1) angles last (i + 1)
    | rightParen =>
      let parens ← oneLess parens
      if parens = 0 then return last.map (·, i + 1)
      else nameofAt ts parens angles last (i + 1)
    | other '<' => nameofAt ts parens (angles + 1) last (i + 1)
    | other '>' => nameofAt ts parens (angles - 1) last (i + 1)
    | name n =>
      nameofAt ts parens angles (if parens = 1 ∧ angles = 0 then some n else last) (i + 1)
    | _ => nameofAt ts parens angles last (i + 1)
  else return none
termination_by ts.length - i

/-- The rest of a dotted path. -/
def pathAt (ts : List ConstantToken) (first : String) (i : Nat) : Checked String :=
  if _h : ts[i]? = some dot then
    match ts[i + 1]? with
    | some (name n) => pathAt ts (first ++ "." ++ n) (i + 2)
    | _ => .ok none
  else .ok (some (first, i))
termination_by ts.length - i
decreasing_by have := (List.getElem?_eq_some_iff.1 _h).1; omega

/-- A path, in front of which `global::` says nothing. -/
def fullPathAt (ts : List ConstantToken) (first : String) (i : Nat) : Checked String :=
  if first = "global" ∧ ts[i]? = some colons then
    match ts[i + 1]? with
    | some (name n) => pathAt ts n (i + 2)
    | _ => .ok none
  else pathAt ts first i

variable {ts us : List ConstantToken} {i start : Nat}

/-- As long as the parenthesis of `nameof` is open, the count of open ones is above zero. -/
theorem nameofAt_follows (h : ts.drop i = us) {depth angles : Nat} {last : Option String} :
    Follows ts i (nameofAt ts (depth + 1) angles last i) (nameof depth angles last us) := by
  fun_induction nameof depth angles last us generalizing i with
  | case1 =>
    rw [nameofAt, if_neg (Nat.not_lt.2 (List.drop_eq_nil_iff.1 h))]
    exact follows_none
  | case2 depth angles last us ih =>
    rw [nameofAt, if_pos (lt_of_drop h), elementAt_of_drop h]
    exact (ih (drop_succ h)).of_le (Nat.le_succ i)
  | case3 angles last us =>
    rw [nameofAt, if_pos (lt_of_drop h), elementAt_of_drop h, ← drop_succ h]
    cases last with
    | none => exact follows_none
    | some n => exact follows_some n (Nat.lt_succ_self i) (lt_of_drop h)
  | case4 angles last us depth ih =>
    rw [nameofAt, if_pos (lt_of_drop h), elementAt_of_drop h]
    exact (ih (drop_succ h)).of_le (Nat.le_succ i)
  | case5 depth angles last us ih =>
    rw [nameofAt, if_pos (lt_of_drop h), elementAt_of_drop h]
    exact (ih (drop_succ h)).of_le (Nat.le_succ i)
  | case6 depth angles last us ih =>
    rw [nameofAt, if_pos (lt_of_drop h), elementAt_of_drop h]
    exact (ih (drop_succ h)).of_le (Nat.le_succ i)
  | case7 depth angles last us n ih =>
    rw [nameofAt, if_pos (lt_of_drop h), elementAt_of_drop h]
    have hcount : (depth + 1 = 1 ∧ angles = 0) = (depth = 0 ∧ angles = 0) := by
      rw [Nat.add_eq_right]
    dsimp only [bind, Except.bind]
    simp only [hcount]
    exact (ih (drop_succ h)).of_le (Nat.le_succ i)
  | case8 depth angles last t us hopen hclose hless hmore hname ih =>
    rw [nameofAt, if_pos (lt_of_drop h), elementAt_of_drop h]
    dsimp only [bind, Except.bind]
    split
    · exact (hopen rfl).elim
    · exact (hclose rfl).elim
    · exact (hless rfl).elim
    · exact (hmore rfl).elim
    · exact (hname _ rfl).elim
    · exact (ih (drop_succ h)).of_le (Nat.le_succ i)

theorem pathAt_follows {first : String} (h : ts.drop i = us) (hstart : start < i)
    (hi : i ≤ ts.length) : Follows ts start (pathAt ts first i) (path first us) := by
  fun_induction path first us generalizing i with
  | case1 first n us ih =>
    rw [pathAt, dif_pos (getElem?_of_drop h), getElem?_succ_of_drop h]
    exact ih (drop_succ (drop_succ h)) (Nat.lt_add_right 2 hstart) (succ_le_of_drop h)
  | case2 first us hname =>
    rw [pathAt, dif_pos (getElem?_of_drop h), getElem?_succ_of_drop h]
    split
    · rename_i n hhead
      obtain ⟨rest, rfl⟩ := List.head?_eq_some_iff.1 hhead
      exact absurd rfl (hname n rest)
    · exact follows_none
  | case3 first us hmember hdot =>
    rw [pathAt, dif_neg]
    · rw [← h]
      exact follows_some first hstart hi
    · intro hhead
      rw [← List.head?_drop, h] at hhead
      obtain ⟨rest, rfl⟩ := List.head?_eq_some_iff.1 hhead
      exact hdot rest rfl

theorem fullPathAt_follows (first : String) (h : ts.drop i = us) (hstart : start < i)
    (hi : i ≤ ts.length) : Follows ts start (fullPathAt ts first i) (fullPath first us) := by
  have hplain (hcolons : ¬(first = "global" ∧ us.head? = some colons)) :
      Follows ts start (fullPathAt ts first i) (path first us) := by
    rw [fullPathAt, ← List.head?_drop, h, if_neg hcolons]
    exact pathAt_follows h hstart hi
  unfold fullPath
  split
  · rename_i rest
    split
    · rename_i hglobal
      rw [fullPathAt, if_pos ⟨hglobal, getElem?_of_drop h⟩, getElem?_succ_of_drop h]
      cases rest with
      | nil => exact follows_none
      | cons t more =>
        cases t with
        | name n =>
          exact pathAt_follows (drop_succ (drop_succ h)) (Nat.lt_add_right 2 hstart)
            (succ_le_of_drop h)
        | _ => exact follows_none
    · rename_i hglobal
      exact hplain fun hcolons => hglobal hcolons.1
  · rename_i hcolons
    refine hplain fun hglobal => ?_
    obtain ⟨rest, rfl⟩ := List.head?_eq_some_iff.1 hglobal.2
    exact hcolons rest rfl

variable (lookup : CheckedLookup) (ts)

mutual

/-- A sum from a position on. -/
def sumAt (i : Nat) : Checked String :=
  match termAt i with
  | .error misstep => .error misstep
  | .ok none => .ok none
  | .ok (some (value, next)) =>
    if i < next then
      if _h : ts[next]? = some plus then
        (sumAt (next + 1)).map (Option.map fun (more, stop) => (value ++ more, stop))
      else .ok (some (value, next))
    else .error .stalled
termination_by (ts.length - i, 1)
decreasing_by
  · exact Prod.Lex.right _ Nat.one_pos
  · have := (List.getElem?_eq_some_iff.1 ‹ts[next]? = some plus›).1
    exact Prod.Lex.left _ _ (by omega)

/-- A term from a position on. -/
def termAt (i : Nat) : Except Misstep (Option (String × Nat)) :=
  if i < ts.length then do
    match ← elementAt ts i with
    | text value => return some (.ofList value, i + 1)
    | leftParen =>
      match ← sumAt (i + 1) with
      | some (value, stop) =>
        return if ts[stop]? = some rightParen then some (value, stop + 1) else none
      | none => return none
    | name first =>
      if first = "nameof" ∧ ts[i + 1]? = some leftParen then nameofAt ts 1 0 none (i + 2)
      else
        match ← fullPathAt ts first (i + 1) with
        | some (path, stop) => return (← lookup path).map (·, stop)
        | none => return none
    | _ => return none
  else return none
termination_by (ts.length - i, 0)
decreasing_by exact Prod.Lex.left _ _ (by omega)

end

variable {lookup : CheckedLookup} {known : Lookup} {ts}

theorem termAt_follows (hlookup : ∀ path, lookup path = .ok (known path)) {n : Nat}
    (hsum : ∀ {j : Nat}, ts.length - j < n →
      Follows ts j (sumAt ts lookup j) (sum known n (ts.drop j)))
    (hn : ts.length - i < n + 1) :
    Follows ts i (termAt ts lookup i) (term known (sum known n) (ts.drop i)) := by
  rw [termAt]
  cases h : ts.drop i with
  | nil =>
    rw [if_neg (Nat.not_lt.2 (List.drop_eq_nil_iff.1 h))]
    exact follows_none
  | cons t us =>
    have hi := lt_of_drop h
    rw [if_pos hi, elementAt_of_drop h]
    dsimp only [bind, Except.bind]
    cases t with
    | text value =>
      rw [← drop_succ h]
      exact follows_some _ (Nat.lt_succ_self i) hi
    | leftParen =>
      have hinner : Follows ts (i + 1) (sumAt ts lookup (i + 1)) (sum known n us) := by
        rw [← drop_succ h]
        exact hsum (by omega)
      rw [term]
      obtain ⟨hread, hfound⟩ | ⟨value, stop, hread, hfound, hstop, -⟩ := hinner
      · rw [hread, hfound]
        exact follows_none
      · rw [hread, hfound]
        dsimp only
        cases hrest : ts.drop stop with
        | nil =>
          rw [getElem?_of_drop_nil hrest]
          exact follows_none
        | cons t more =>
          rw [getElem?_of_drop hrest]
          by_cases hclose : t = rightParen
          · subst hclose
            rw [if_pos rfl, ← drop_succ hrest]
            exact follows_some value (by omega) (lt_of_drop hrest)
          · rw [if_neg fun heq => hclose (Option.some.inj heq)]
            cases t <;> first | exact absurd rfl hclose | exact follows_none
    | name first =>
      by_cases hname : first = "nameof" → us.head? ≠ some leftParen
      · rw [term_path hname, getElem?_succ_of_drop h]
        dsimp only
        rw [if_neg fun hopen => hname hopen.1 hopen.2]
        obtain ⟨hread, hfound⟩ | ⟨path, stop, hread, hfound, hstop, hle⟩ :=
          fullPathAt_follows first (drop_succ h) (Nat.lt_succ_self i) hi
        · rw [hread, hfound]
          exact follows_none
        · rw [hread, hfound]
          dsimp only
          rw [hlookup, Option.bind_some]
          cases known path with
          | none => exact follows_none
          | some value => exact follows_some value (by omega) hle
      · obtain ⟨rfl, hhead⟩ := Classical.not_imp.1 hname
        obtain ⟨rest, rfl⟩ := List.head?_eq_some_iff.1 (not_not.1 hhead)
        rw [getElem?_succ_of_drop h]
        exact (nameofAt_follows (drop_succ (drop_succ h))).of_le (Nat.le_add_right i 2)
    | _ => exact follows_none

theorem sumAt_follows (hlookup : ∀ path, lookup path = .ok (known path))
    (ts : List ConstantToken) : ∀ (n : Nat) {i : Nat}, ts.length - i < n →
      Follows ts i (sumAt ts lookup i) (sum known n (ts.drop i))
  | 0, i, hn => absurd hn (Nat.not_lt_zero _)
  | n + 1, i, hn => by
    have hterm := termAt_follows hlookup (sumAt_follows hlookup ts n) hn
    rw [sumAt, sum_succ]
    obtain ⟨hread, hfound⟩ | ⟨value, next, hread, hfound, hnext, hle⟩ := hterm
    · rw [hread, hfound]
      exact follows_none
    · rw [hread, hfound]
      dsimp only [Option.bind_some]
      rw [if_pos hnext]
      by_cases hplus : ts[next]? = some plus
      · obtain ⟨more, htail⟩ : ∃ more, ts.drop next = plus :: more :=
          List.head?_eq_some_iff.1 (List.head?_drop.trans hplus)
        have hsum := sumAt_follows hlookup ts n (i := next + 1) (by have := lt_of_drop htail; omega)
        rw [dif_pos hplus, htail, readMore, ← drop_succ htail]
        exact (hsum.map (value ++ ·)).of_le (by omega)
      · rw [dif_neg hplus, readMore_of_ne]
        · exact follows_some value hnext hle
        · intro us htail
          exact hplus (getElem?_of_drop htail)

/-- The value of a whole expression. -/
def valueAt (lookup : CheckedLookup) (expression : String) : Except Misstep (Option String) := do
  match ← tokensOf expression.toList with
  | none => return none
  | some ts =>
    match ← sumAt ts lookup 0 with
    | none => return none
    | some (value, stop) => return if stop = ts.length then some value else none

theorem valueAt_eq (hlookup : ∀ path, lookup path = .ok (known path)) (expression : String) :
    valueAt lookup expression = .ok (value? known expression) := by
  rw [valueAt, tokensOf_eq, value?]
  cases hscan : scan expression.toList with
  | none => rfl
  | some ts =>
    have hsum := sumAt_follows hlookup ts (ts.length + 1) (i := 0) (Nat.lt_succ_self _)
    rw [List.drop_zero] at hsum
    dsimp only [bind, Except.bind, Option.bind_some]
    obtain ⟨hread, hfound⟩ | ⟨value, stop, hread, hfound, -, hle⟩ := hsum
    · rw [hread, hfound]
      rfl
    · have hend : (stop = ts.length) = ((ts.drop stop).isEmpty = true) := by
        rw [List.isEmpty_iff, List.drop_eq_nil_iff, eq_iff_iff]
        omega
      rw [hread, hfound]
      dsimp only
      simp only [hend]
      rfl

/-- The value of an expression in which references nest to less than a given depth. -/
def evaluate (m : Model) : Nat → Scope → String → Except Misstep (Option String)
  | 0, _, _ => .ok none
  | n + 1, s, expression => valueAt (fun path =>
      match (m.candidates s path).findSome? m.constant? with
      | none => .ok none
      | some c => evaluate m n c.scope c.value) expression

theorem evaluate_eq (m : Model) : ∀ (n : Nat) (s : Scope) (expression : String),
    evaluate m n s expression = .ok (valueWithin m n s expression)
  | 0, _, _ => rfl
  | n + 1, s, expression => by
    rw [evaluate, valueWithin]
    refine valueAt_eq (fun path => ?_) expression
    cases (m.candidates s path).findSome? m.constant? with
    | none => rfl
    | some c => exact evaluate_eq m n c.scope c.value

end Value

/-- Each reader goes through from wherever it is called, on every text, and so does what is made of
them: the tokens of the text and its value in any scope. -/
theorem evaluate_inside (cs : List Char) :
    (∀ (interpolated : Bool) (i : Nat), cs[i]? = some '"' →
      Follows cs i (quotedAt cs interpolated i) (quotedText interpolated (cs.drop i)) ∧
      Follows cs i (verbatimAt cs interpolated i) (verbatim interpolated (cs.drop (i + 1)))) ∧
    (∀ (marks : Nat) (interpolated : Bool) (i : Nat), 0 < marks →
      Follows cs i (rawAt cs marks interpolated i)
        (raw marks interpolated (cs.drop (i + marks)))) ∧
    (∀ (c : Char) (i : Nat), cs[i]? = some c → isNameRest c = true →
      Follows cs i (nameAt cs i)
        (some ((cs.drop i).takeWhile isNameRest, (cs.drop i).dropWhile isNameRest))) ∧
    (∀ i : Nat, Follows cs i (escapeAt cs i) (escape (cs.drop (i + 1)))) ∧
    (∀ least most i : Nat, 0 < least → i ≤ cs.length →
      Follows cs i (codePointAt cs least most i) (codePoint least most (cs.drop i))) ∧
    (∀ (ts : List ConstantToken) (depth angles : Nat) (last : Option String) (i : Nat),
      Follows ts i (nameofAt ts (depth + 1) angles last i)
        (nameof depth angles last (ts.drop i))) ∧
    tokensOf cs = .ok (scan cs) ∧
    ∀ (m : Model) (n : Nat) (s : Scope),
      evaluate m n s (.ofList cs) = .ok (valueWithin m n s (.ofList cs)) := by
  have hcons {c : Char} {i : Nat} (hc : cs[i]? = some c) : ∃ tail, cs.drop i = c :: tail :=
    List.head?_eq_some_iff.1 (List.head?_drop.trans hc)
  refine ⟨fun interpolated i hquote => ⟨?_, verbatimAt_follows i⟩,
    fun marks interpolated i hmarks => rawAt_follows hmarks i, fun c i hc hname => ?_,
    escapeAt_follows cs, fun least most i hleast hi => codePointAt_follows hleast hi,
    fun ts depth angles last i => nameofAt_follows rfl, tokensOf_eq cs,
    fun m n s => evaluate_eq m n s _⟩
  · obtain ⟨tail, htail⟩ := hcons hquote
    exact quotedAt_follows (lt_of_drop htail)
  · obtain ⟨tail, htail⟩ := hcons hc
    rw [htail]
    exact nameAt_follows htail hname

/-- A sum with an escape sequence in its string. -/
def greeting : List Char := "x + \"\\u0041\"".toList

theorem evaluate_inside_greeting :
    (greeting[4]? = some '"' ∧ greeting[0]? = some 'x' ∧ isNameRest 'x' = true ∧
      7 ≤ greeting.length) ∧
    Follows greeting 4 (quotedAt greeting false 4) (some (['A'], [])) ∧
    Follows greeting 4 (rawAt greeting 3 false 4) none ∧
    Follows greeting 0 (nameAt greeting 0) (some (['x'], greeting.drop 1)) ∧
    Follows greeting 7 (codePointAt greeting 4 4 7) (some ('A', ['"'])) := by
  have hquote : greeting[4]? = some '"' := rfl
  have hx : greeting[0]? = some 'x' := rfl
  have hlength : 7 ≤ greeting.length := by decide
  have hvalue : quotedText false (greeting.drop 4) = some (['A'], []) := by decide +kernel
  obtain ⟨hquoted, hraw, hname, -, hcode, -⟩ := evaluate_inside greeting
  refine ⟨⟨hquote, hx, by decide, hlength⟩, ?_, hraw 3 false 4 (by decide),
    hname 'x' 0 hx (by decide), hcode 4 4 7 (by decide) hlength⟩
  rw [← hvalue]
  exact (hquoted false 4 hquote).1

end ConstantExpr

end TaskWrappers
