import TaskWrappers.Proofs.ConstantExpr.Literal

/-!
# Readers that go by position

The strings and names of a constant expression can also be read in place, by a position that moves
through its characters. Such a reader looks at characters one or two ahead, takes out what stands
between two positions, and hands its position on to the next. Here each of them stops where it would
ask for what is not there (`Misstep`), so that it goes through at all only if every character and
every part it takes lies in the text.

No misstep is ever made. Each of them follows the reader that is given what is left to read
(`Follows`): it finds the same, and behind it the position has moved on, to the end of the text at
most.
-/

namespace TaskWrappers.ConstantToken

open Text

/-- What a reader that goes by position cannot do. -/
inductive Misstep where
  /-- Take the character at a position where there is none. -/
  | index
  /-- Take a part that is not all in the text. -/
  | slice
  /-- Count below zero. -/
  | underflow
  /-- End a round where it started. -/
  | stalled
  deriving DecidableEq

/-- What is found and where it ends, if anything is and the reader goes through. -/
abbrev Checked (α : Type) := Except Misstep (Option (α × Nat))

section Access

variable {β : Type}

/-- The element at a position, which has to have one. -/
def elementAt (items : List β) (i : Nat) : Except Misstep β :=
  match items[i]? with
  | some item => .ok item
  | none => .error .index

/-- What stands from a position on, which may be the end. -/
def partFrom (items : List β) (i : Nat) : Except Misstep (List β) :=
  if i ≤ items.length then .ok (items.drop i) else .error .slice

/-- What stands between two positions. -/
def partBetween (items : List β) (i j : Nat) : Except Misstep (List β) :=
  if i ≤ j ∧ j ≤ items.length then .ok ((items.drop i).take (j - i)) else .error .slice

/-- A count that is one less. -/
def oneLess : Nat → Except Misstep Nat
  | 0 => .error .underflow
  | n + 1 => .ok n

variable {items tail : List β} {item : β} {i : Nat}

theorem lt_of_drop (h : items.drop i = item :: tail) : i < items.length := by
  have hlength := congrArg List.length h
  rw [List.length_drop, List.length_cons] at hlength
  omega

theorem le_of_drop_ne_nil (h : items.drop i ≠ []) : i ≤ items.length :=
  Nat.le_of_not_le fun hle => h (List.drop_eq_nil_of_le hle)

theorem getElem?_of_drop (h : items.drop i = item :: tail) : items[i]? = some item := by
  rw [← List.head?_drop, h, List.head?_cons]

theorem getElem?_succ_of_drop (h : items.drop i = item :: tail) :
    items[i + 1]? = tail.head? := by
  rw [← List.getElem?_drop, h, List.getElem?_cons_succ, List.head?_eq_getElem?]

theorem drop_succ (h : items.drop i = item :: tail) : items.drop (i + 1) = tail := by
  rw [← List.tail_drop, h, List.tail_cons]

theorem getElem?_of_drop_nil (h : items.drop i = []) : items[i]? = none :=
  List.getElem?_eq_none (List.drop_eq_nil_iff.1 h)

theorem succ_le_of_drop {next : β} (h : items.drop i = item :: next :: tail) :
    i + 2 ≤ items.length :=
  lt_of_drop (drop_succ h)

theorem elementAt_of_drop (h : items.drop i = item :: tail) : elementAt items i = .ok item := by
  rw [elementAt, getElem?_of_drop h]

theorem partFrom_of_le (h : i ≤ items.length) : partFrom items i = .ok (items.drop i) :=
  if_pos h

variable {body rest : List β}

theorem drop_add (h : items.drop i = body ++ rest) : items.drop (i + body.length) = rest := by
  rw [← List.drop_drop, h, List.drop_left]

theorem add_le (h : items.drop i = body ++ rest) (hi : i ≤ items.length) :
    i + body.length ≤ items.length := by
  have hlength := congrArg List.length h
  rw [List.length_drop, List.length_append] at hlength
  omega

theorem partBetween_add (h : items.drop i = body ++ rest) (hi : i ≤ items.length) :
    partBetween items i (i + body.length) = .ok body := by
  rw [partBetween, if_pos ⟨Nat.le_add_right i _, add_le h hi⟩, Nat.add_sub_cancel_left, h,
    List.take_left]

end Access

section Follows

variable {α β γ : Type} {items : List β} {start : Nat} {read : Checked α}
  {found : Option (α × List β)}

/-- A reader that goes by position does as one that is given what is left: it goes through and finds
nothing where that finds nothing, and else the same with the rest behind a later position. -/
def Follows (items : List β) (start : Nat) (read : Checked α) (found : Option (α × List β)) :
    Prop :=
  (read = .ok none ∧ found = none) ∨
    ∃ value stop, read = .ok (some (value, stop)) ∧ found = some (value, items.drop stop) ∧
      start < stop ∧ stop ≤ items.length

theorem follows_none : Follows items start (α := α) (.ok none) none := .inl ⟨rfl, rfl⟩

theorem follows_some (value : α) {stop : Nat} (hstart : start < stop)
    (hstop : stop ≤ items.length) :
    Follows items start (.ok (some (value, stop))) (some (value, items.drop stop)) :=
  .inr ⟨value, stop, rfl, rfl, hstart, hstop⟩

theorem follows_append (value : α) {body rest : List β} (h : items.drop start = body ++ rest)
    (hbody : body ≠ []) :
    Follows items start (.ok (some (value, start + body.length))) (some (value, rest)) := by
  have hstart : start ≤ items.length :=
    le_of_drop_ne_nil (h ▸ List.append_ne_nil_of_left_ne_nil hbody rest)
  rw [← drop_add h]
  exact follows_some value (Nat.lt_add_of_pos_right (List.length_pos_iff.2 hbody))
    (add_le h hstart)

theorem Follows.of_le (h : Follows items start read found) {i : Nat} (hi : i ≤ start) :
    Follows items i read found := by
  obtain h | ⟨value, stop, hread, hfound, hstart, hstop⟩ := h
  · exact .inl h
  · exact .inr ⟨value, stop, hread, hfound, Nat.lt_of_le_of_lt hi hstart, hstop⟩

theorem Follows.map (h : Follows items start read found) (f : α → γ) :
    Follows items start (read.map (Option.map fun (value, stop) => (f value, stop)))
      (found.map fun (value, rest) => (f value, rest)) := by
  obtain ⟨rfl, rfl⟩ | ⟨value, stop, rfl, rfl, hstart, hstop⟩ := h
  · exact follows_none
  · exact follows_some (f value) hstart hstop

end Follows

section Name

/-- The end of the name characters that stand from a position on. -/
def nameEnd (cs : List Char) (stop : Nat) : Except Misstep Nat :=
  if stop < cs.length then do
    let c ← elementAt cs stop
    if isNameRest c then nameEnd cs (stop + 1) else return stop
  else return stop
termination_by cs.length - stop

/-- The name characters that stand from a position on. -/
def nameAt (cs : List Char) (start : Nat) : Except Misstep (Option (List Char × Nat)) := do
  let stop ← nameEnd cs start
  return some (← partBetween cs start stop, stop)

variable {cs : List Char}

theorem nameEnd_eq : ∀ {tail : List Char} {i : Nat}, cs.drop i = tail →
    nameEnd cs i = .ok (i + (tail.takeWhile isNameRest).length)
  | [], i, h => by
    rw [nameEnd, if_neg (Nat.not_lt.2 (List.drop_eq_nil_iff.1 h))]
    rfl
  | c :: tail, i, h => by
    rw [nameEnd, if_pos (lt_of_drop h), elementAt_of_drop h, List.takeWhile_cons]
    show (if isNameRest c = true then nameEnd cs (i + 1) else .ok i) = _
    by_cases hc : isNameRest c = true
    · rw [if_pos hc, if_pos hc, nameEnd_eq (drop_succ h), List.length_cons]
      congr 1
      omega
    · rw [if_neg hc, if_neg hc]
      rfl

/-- What opens a name is part of it, so that no name is empty. -/
theorem nameAt_follows {c : Char} {tail : List Char} {i : Nat} (h : cs.drop i = c :: tail)
    (hc : isNameRest c = true) : Follows cs i (nameAt cs i)
      (some ((c :: tail).takeWhile isNameRest, (c :: tail).dropWhile isNameRest)) := by
  have hword : (c :: tail).takeWhile isNameRest ≠ [] := by
    rw [List.takeWhile_cons_of_pos hc]
    exact List.cons_ne_nil _ _
  have htext : cs.drop i
      = (c :: tail).takeWhile isNameRest ++ (c :: tail).dropWhile isNameRest := by
    rw [h, List.takeWhile_append_dropWhile]
  have hread : nameAt cs i = .ok (some
      ((c :: tail).takeWhile isNameRest, i + ((c :: tail).takeWhile isNameRest).length)) := by
    rw [nameAt, nameEnd_eq h]
    show (partBetween cs i _).bind _ = _
    rw [partBetween_add htext (lt_of_drop h).le]
    rfl
  rw [hread]
  exact follows_append _ htext hword

end Name

section Escape

/-- The character a number of hexadecimal digits stands for. -/
def codePointAt (cs : List Char) (least most start : Nat) :
    Except Misstep (Option (Char × Nat)) := do
  let digits := ((← partFrom cs start).take most).takeWhile isAsciiHexDigit
  if digits.length < least then return none
  return (charOf? (hexValue digits)).map (·, start + digits.length)

/-- The escape sequence that a backslash opens. -/
def escapeAt (cs : List Char) (i : Nat) : Checked Char :=
  match cs[i + 1]? with
  | none => .ok none
  | some c =>
    if c = 'u' then codePointAt cs 4 4 (i + 2)
    else if c = 'U' then codePointAt cs 8 8 (i + 2)
    else if c = 'x' then codePointAt cs 1 4 (i + 2)
    else .ok ((simpleEscape? c).map (·, i + 2))

variable {cs : List Char}

theorem codePointAt_follows {least most start : Nat} (hleast : 0 < least)
    (hstart : start ≤ cs.length) :
    Follows cs start (codePointAt cs least most start) (codePoint least most (cs.drop start)) := by
  rw [codePointAt, partFrom_of_le hstart, codePoint]
  dsimp only [Except.bind, bind]
  generalize hdigits : ((cs.drop start).take most).takeWhile isAsciiHexDigit = digits
  split
  · exact follows_none
  · rename_i hlength
    have htext : cs.drop start = digits ++ (cs.drop start).drop digits.length := by
      rw [← hdigits]
      exact (List.prefix_iff_eq_append.1
        ((List.takeWhile_prefix _).trans (List.take_prefix _ _))).symm
    have hdigits : digits ≠ [] := by
      rintro rfl
      exact hlength hleast
    cases charOf? (hexValue digits) with
    | none => exact follows_none
    | some c => exact follows_append c htext hdigits

theorem escapeAt_follows (cs : List Char) (i : Nat) :
    Follows cs i (escapeAt cs i) (escape (cs.drop (i + 1))) := by
  rw [escapeAt]
  cases htail : cs.drop (i + 1) with
  | nil =>
    rw [← List.head?_drop, htail]
    exact follows_none
  | cons c tail =>
    have hcode {least most : Nat} (hleast : 0 < least) :
        Follows cs i (codePointAt cs least most (i + 2)) (codePoint least most tail) := by
      rw [← drop_succ htail]
      exact (codePointAt_follows hleast (lt_of_drop htail)).of_le (Nat.le_add_right i 2)
    rw [getElem?_of_drop htail, escape]
    dsimp only
    split
    · exact hcode (Nat.succ_pos 3)
    · split
      · exact hcode (Nat.succ_pos 7)
      · split
        · exact hcode Nat.one_pos
        · cases simpleEscape? c with
          | none => exact follows_none
          | some d =>
            rw [← drop_succ htail]
            exact follows_some d (Nat.lt_add_of_pos_right Nat.two_pos) (lt_of_drop htail)

end Escape

section Rounds

variable {α β : Type}

/-- What a round of a loop comes to: nothing can be found any more, all is found, or there may be
more from a later position on. -/
inductive Round (α : Type) where
  | broken
  | closed (stop : Nat)
  | more (found : Option α) (next : Nat)

/-- A loop goes from round to round, each of which has to move on in the text. -/
def rounds (items : List β) (round : Nat → Except Misstep (Round α)) (i : Nat) :
    Checked (List α) :=
  match round i with
  | .error misstep => .error misstep
  | .ok .broken => .ok none
  | .ok (.closed stop) => .ok (some ([], stop))
  | .ok (.more found next) =>
    if i < next ∧ next ≤ items.length then
      (rounds items round next).map (Option.map fun (value, stop) => (found.toList ++ value, stop))
    else .error .stalled
termination_by items.length - i

variable {items : List β} {round : Nat → Except Misstep (Round α)} {i : Nat}

theorem follows_broken (h : round i = .ok .broken) :
    Follows items i (rounds items round i) none := by
  rw [rounds, h]
  exact follows_none

theorem follows_closed (h : round i = .ok (.closed (i + 1))) {item : β} {tail : List β}
    (htail : items.drop i = item :: tail) :
    Follows items i (rounds items round i) (some ([], tail)) := by
  rw [rounds, h, ← drop_succ htail]
  exact follows_some [] (Nat.lt_succ_self i) (lt_of_drop htail)

theorem follows_more (x : Option α) {next : Nat} (h : round i = .ok (.more x next))
    (hnext : i < next) (hle : next ≤ items.length) {found : Option (List α × List β)}
    (hrest : Follows items next (rounds items round next) found) :
    Follows items i (rounds items round i)
      (found.map fun (value, rest) => (x.toList ++ value, rest)) := by
  rw [rounds, h]
  dsimp only
  rw [if_pos ⟨hnext, hle⟩]
  exact (hrest.map (x.toList ++ ·)).of_le hnext.le

end Rounds

section Strings

/-- A round in a plain string. -/
def plainRound (cs : List Char) (interpolated : Bool) (i : Nat) : Except Misstep (Round Char) :=
  match cs[i]? with
  | none => .ok .broken
  | some c =>
    if c = '"' then .ok (.closed (i + 1))
    else if c = '\n' then .ok .broken
    else if c = '\\' then
      (escapeAt cs i).map fun
        | none => .broken
        | some (d, next) => .more (some d) next
    else if interpolated && isBrace c then
      .ok (if cs[i + 1]? = some c then .more (some c) (i + 2) else .broken)
    else .ok (.more (some c) (i + 1))

/-- A round in a verbatim string. -/
def verbatimRound (cs : List Char) (interpolated : Bool) (i : Nat) : Except Misstep (Round Char) :=
  match cs[i]? with
  | none => .ok .broken
  | some c =>
    if c = '"' then
      .ok (if cs[i + 1]? = some '"' then .more (some '"') (i + 2) else .closed (i + 1))
    else if interpolated && isBrace c then
      .ok (if cs[i + 1]? = some c then .more (some c) (i + 2) else .broken)
    else .ok (.more (some c) (i + 1))

variable {cs tail : List Char} {i : Nat} {interpolated : Bool}

theorem plainRound_follows (h : cs.drop i = tail) :
    Follows cs i (rounds cs (plainRound cs interpolated) i) (plain interpolated tail) := by
  fun_induction plain interpolated tail generalizing i with
  | case1 =>
    apply follows_broken
    rw [plainRound, getElem?_of_drop_nil h]
  | case2 tail =>
    refine follows_closed ?_ h
    simp only [plainRound, getElem?_of_drop h, if_true]
  | case3 tail hquote =>
    apply follows_broken
    simp only [plainRound, getElem?_of_drop h, if_neg hquote, if_true]
  | case4 tail hnone hquote hbreak =>
    have hescape := escapeAt_follows cs i
    rw [drop_succ h, hnone] at hescape
    obtain ⟨hread, -⟩ | ⟨d, next, -, hfound, -⟩ := hescape
    · apply follows_broken
      simp only [plainRound, getElem?_of_drop h, if_neg hquote, if_neg hbreak, if_true, hread]
      rfl
    · cases hfound
  | case5 tail d rest hsome hquote hbreak ih =>
    have hescape := escapeAt_follows cs i
    rw [drop_succ h, hsome] at hescape
    obtain ⟨-, hfound⟩ | ⟨e, next, hread, hfound, hnext, hle⟩ := hescape
    · cases hfound
    · cases hfound
      refine follows_more (some d) ?_ hnext hle (ih rfl)
      simp only [plainRound, getElem?_of_drop h, if_neg hquote, if_neg hbreak, if_true, hread]
      rfl
  | case6 c tail hquote hbreak hslash hbrace ih =>
    refine follows_more (some c) ?_ (Nat.lt_add_of_pos_right Nat.two_pos) (succ_le_of_drop h)
      (ih (drop_succ (drop_succ h)))
    simp only [plainRound, getElem?_of_drop h, if_neg hquote, if_neg hbreak, if_neg hslash,
      if_pos hbrace, getElem?_succ_of_drop h, List.head?_cons, if_true]
  | case7 c hquote hbreak hslash hbrace d tail hd =>
    apply follows_broken
    simp only [plainRound, getElem?_of_drop h, if_neg hquote, if_neg hbreak, if_neg hslash,
      if_pos hbrace, getElem?_succ_of_drop h, List.head?_cons, Option.some.injEq, if_neg hd]
  | case8 c hquote hbreak hslash hbrace =>
    apply follows_broken
    simp only [plainRound, getElem?_of_drop h, if_neg hquote, if_neg hbreak, if_neg hslash,
      if_pos hbrace, getElem?_succ_of_drop h, List.head?_nil, reduceCtorEq, if_false]
  | case9 c tail hquote hbreak hslash hbrace ih =>
    refine follows_more (some c) ?_ (Nat.lt_succ_self i) (lt_of_drop h) (ih (drop_succ h))
    simp only [plainRound, getElem?_of_drop h, if_neg hquote, if_neg hbreak, if_neg hslash,
      if_neg hbrace]

theorem verbatimRound_follows (h : cs.drop i = tail) :
    Follows cs i (rounds cs (verbatimRound cs interpolated) i) (verbatim interpolated tail) := by
  fun_induction verbatim interpolated tail generalizing i with
  | case1 =>
    apply follows_broken
    rw [verbatimRound, getElem?_of_drop_nil h]
  | case2 tail ih =>
    refine follows_more (some '"') ?_ (Nat.lt_add_of_pos_right Nat.two_pos) (succ_le_of_drop h)
      (ih (drop_succ (drop_succ h)))
    simp only [verbatimRound, getElem?_of_drop h, getElem?_succ_of_drop h, List.head?_cons, if_true]
  | case3 tail hend =>
    refine follows_closed ?_ h
    have hhead : tail.head? ≠ some '"' := fun hhead =>
      (List.head?_eq_some_iff.1 hhead).elim hend
    simp only [verbatimRound, getElem?_of_drop h, getElem?_succ_of_drop h, if_true, if_neg hhead]
  | case4 c tail hquote hbrace ih =>
    refine follows_more (some c) ?_ (Nat.lt_add_of_pos_right Nat.two_pos) (succ_le_of_drop h)
      (ih (drop_succ (drop_succ h)))
    simp only [verbatimRound, getElem?_of_drop h, if_neg hquote, if_pos hbrace,
      getElem?_succ_of_drop h, List.head?_cons, if_true]
  | case5 c hquote hbrace d tail hd =>
    apply follows_broken
    simp only [verbatimRound, getElem?_of_drop h, if_neg hquote, if_pos hbrace,
      getElem?_succ_of_drop h, List.head?_cons, Option.some.injEq, if_neg hd]
  | case6 c hquote hbrace =>
    apply follows_broken
    simp only [verbatimRound, getElem?_of_drop h, if_neg hquote, if_pos hbrace,
      getElem?_succ_of_drop h, List.head?_nil, reduceCtorEq, if_false]
  | case7 c tail hquote hbrace ih =>
    refine follows_more (some c) ?_ (Nat.lt_succ_self i) (lt_of_drop h) (ih (drop_succ h))
    simp only [verbatimRound, getElem?_of_drop h, if_neg hquote, if_neg hbrace]

/-- How many quotation marks stand from a position on. -/
def quoteRunAt (cs : List Char) (i : Nat) : Except Misstep Nat :=
  (partFrom cs i).map quoteRun

/-- Whether at least `marks` quotation marks stand from a position on. -/
def closesAt (cs : List Char) (marks i : Nat) : Except Misstep Bool := do
  if (← elementAt cs i) = '"' then return decide (marks ≤ (← quoteRunAt cs i)) else return false

/-- The next position from which at least `marks` quotation marks stand. -/
def runAt (cs : List Char) (marks i : Nat) : Except Misstep (Option Nat) :=
  if i < cs.length then do
    if ← closesAt cs marks i then return some i else runAt cs marks (i + 1)
  else return none
termination_by cs.length - i

/-- A raw string, of which as many quotation marks as given open at a position. -/
def rawAt (cs : List Char) (marks : Nat) (interpolated : Bool) (start : Nat) :
    Except Misstep (Option (List Char × Nat)) := do
  match ← runAt cs marks (start + marks) with
  | none => return none
  | some i =>
    let body ← partBetween cs (start + marks) i
    if interpolated && body.any isBrace then return none
    return (rawValue? body).map (·, i + marks)

/-- A verbatim string from its opening quotation mark on. -/
def verbatimAt (cs : List Char) (interpolated : Bool) (start : Nat) : Checked (List Char) :=
  rounds cs (verbatimRound cs interpolated) (start + 1)

/-- A plain, empty or raw string from its first quotation mark on. -/
def quotedAt (cs : List Char) (interpolated : Bool) (start : Nat) :
    Except Misstep (Option (List Char × Nat)) := do
  let marks ← quoteRunAt cs start
  if 3 ≤ marks then rawAt cs marks interpolated start
  else if marks = 2 then return some ([], start + 2)
  else rounds cs (plainRound cs interpolated) (start + 1)

theorem verbatimAt_follows (i : Nat) : Follows cs i (verbatimAt cs interpolated i)
    (verbatim interpolated (cs.drop (i + 1))) :=
  (verbatimRound_follows rfl).of_le (Nat.le_succ i)

theorem quoteRunAt_of_le (h : i ≤ cs.length) : quoteRunAt cs i = .ok (quoteRun (cs.drop i)) := by
  rw [quoteRunAt, partFrom_of_le h]
  rfl

theorem closesAt_of_drop {marks : Nat} (hmarks : 0 < marks) {c : Char}
    (h : cs.drop i = c :: tail) :
    closesAt cs marks i = .ok (decide (marks ≤ quoteRun (c :: tail))) := by
  rw [closesAt, elementAt_of_drop h, quoteRunAt_of_le (lt_of_drop h).le, h]
  dsimp only [bind, Except.bind]
  split
  · rfl
  · rename_i hc
    have hrun : quoteRun (c :: tail) = 0 := quoteRun_eq_zero.2 fun heq => hc (Option.some.inj heq)
    rw [hrun, decide_eq_false (Nat.not_le.2 hmarks)]
    rfl

theorem runAt_eq {marks : Nat} (hmarks : 0 < marks) : ∀ {tail : List Char} {i : Nat},
    cs.drop i = tail →
      runAt cs marks i = .ok ((rawBody marks tail).map fun found => i + found.1.length)
  | [], i, h => by
    rw [runAt, if_neg (Nat.not_lt.2 (List.drop_eq_nil_iff.1 h))]
    rfl
  | c :: tail, i, h => by
    rw [runAt, if_pos (lt_of_drop h), closesAt_of_drop hmarks h, rawBody]
    dsimp only [bind, Except.bind]
    by_cases hrun : marks ≤ quoteRun (c :: tail)
    · rw [if_pos (decide_eq_true hrun), if_pos hrun]
      rfl
    · rw [if_neg (by rwa [decide_eq_true_iff]), if_neg hrun, runAt_eq hmarks (drop_succ h)]
      cases rawBody marks tail with
      | none => rfl
      | some found =>
        show Except.ok (some (i + 1 + found.1.length)) = .ok (some (i + (found.1.length + 1)))
        rw [Nat.add_right_comm, Nat.add_assoc]

theorem rawAt_follows {marks : Nat} (hmarks : 0 < marks) (i : Nat) :
    Follows cs i (rawAt cs marks interpolated i)
      (raw marks interpolated (cs.drop (i + marks))) := by
  rw [rawAt, runAt_eq hmarks rfl, raw]
  cases hbody : rawBody marks (cs.drop (i + marks)) with
  | none => exact follows_none
  | some found =>
    obtain ⟨body, rest⟩ := found
    obtain ⟨htext, -⟩ := exists_of_rawBody hmarks hbody
    have hquotes : (quotes marks).length = marks := List.length_replicate
    have hclosed : quotes marks ≠ [] := List.ne_nil_of_length_pos (by rwa [hquotes])
    have hstart : i + marks ≤ cs.length :=
      le_of_drop_ne_nil (htext ▸ List.append_ne_nil_of_right_ne_nil body
        (List.append_ne_nil_of_left_ne_nil hclosed rest))
    have hrest := drop_add htext
    have hstop := add_le hrest (add_le htext hstart)
    have hclose := drop_add hrest
    rw [hquotes] at hstop hclose
    dsimp only [bind, Except.bind, Option.map_some, Option.bind_some]
    rw [partBetween_add htext hstart]
    dsimp only
    split
    · exact follows_none
    · cases rawValue? body with
      | none => exact follows_none
      | some value =>
        rw [← hclose]
        exact follows_some value (by omega) hstop

/-- A string is read where its first quotation mark stands. -/
theorem quotedAt_follows (h : i < cs.length) :
    Follows cs i (quotedAt cs interpolated i) (quotedText interpolated (cs.drop i)) := by
  rw [quotedAt, quoteRunAt_of_le h.le, quotedText]
  dsimp only [Except.bind, bind]
  split
  · rename_i hmarks
    rw [List.drop_drop]
    exact rawAt_follows (Nat.lt_of_lt_of_le (Nat.succ_pos 2) hmarks) i
  · split
    · rename_i hmarks
      have hrun := (List.takeWhile_prefix (l := cs.drop i) (· == '"')).length_le
      rw [← quoteRun, hmarks, List.length_drop] at hrun
      rw [List.drop_drop]
      exact follows_some [] (Nat.lt_add_of_pos_right Nat.two_pos) (by omega)
    · rw [List.drop_drop]
      exact (plainRound_follows rfl).of_le (Nat.le_succ i)

end Strings

end TaskWrappers.ConstantToken
