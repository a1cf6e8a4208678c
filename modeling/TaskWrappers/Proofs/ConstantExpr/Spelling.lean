import Mathlib.Data.List.Forall2
import Mathlib.Tactic.Ring
import TaskWrappers.Proofs.ConstantExpr.Literal

/-!
# How characters are written in strings

A character of a plain string is written as it is, by an escape with a letter or by its code point,
and a brace of an interpolated one is doubled; in a verbatim string quotation marks are doubled as
well. Either reader undoes this piece by piece, whatever comes behind
(`ConstantToken.plain_spelled`, `ConstantToken.verbatim_doubled`). A brace that is not doubled opens
a hole, and no escape before it reaches that far (`ConstantToken.plain_hole`).
-/

namespace TaskWrappers

namespace Text

/-- As many hexadecimal digits of a number as asked for, the lowest ones. -/
def hexDigits : Nat → Nat → List Char
  | 0, _ => []
  | k + 1, n => Nat.digitChar (n / 16 ^ k % 16) :: hexDigits k n

/-- Whether a character is a digit as it is or in upper case. -/
def EitherCase (digit c : Char) : Prop := c = digit ∨ c = digit.toUpper

theorem hexDigit_spec {d : Nat} (hd : d < 16) {c : Char} (hc : EitherCase (Nat.digitChar d) c) :
    isAsciiHexDigit c = true ∧ hexDigitValue c = d := by
  have hlower : ∀ d < 16, isAsciiHexDigit (Nat.digitChar d) = true ∧
      hexDigitValue (Nat.digitChar d) = d := by decide
  have hupper : ∀ d < 16, isAsciiHexDigit (Nat.digitChar d).toUpper = true ∧
      hexDigitValue (Nat.digitChar d).toUpper = d := by decide
  rcases hc with rfl | rfl
  · exact hlower d hd
  · exact hupper d hd

theorem foldl_hexDigits (n : Nat) : ∀ {k : Nat} {w : List Char},
    List.Forall₂ EitherCase (hexDigits k n) w → ∀ high,
      w.foldl (fun m c => 16 * m + hexDigitValue c) high = high * 16 ^ k + n % 16 ^ k
  | 0, _, .nil, high => by rw [List.foldl_nil, pow_zero, mul_one, Nat.mod_one, add_zero]
  | k + 1, c :: w, .cons hc hw, high => by
    have hvalue := (hexDigit_spec (Nat.mod_lt _ (by omega)) hc).2
    rw [List.foldl_cons, foldl_hexDigits n hw, hvalue, Nat.mod_pow_succ]
    ring

theorem hexValue_hexDigits {k n : Nat} (hn : n < 16 ^ k) {w : List Char}
    (hw : List.Forall₂ EitherCase (hexDigits k n) w) : hexValue w = n := by
  rw [hexValue, foldl_hexDigits n hw, Nat.zero_mul, Nat.zero_add, Nat.mod_eq_of_lt hn]

theorem length_hexDigits (n : Nat) : ∀ k, (hexDigits k n).length = k
  | 0 => rfl
  | k + 1 => by rw [hexDigits, List.length_cons, length_hexDigits n k]

theorem isAsciiHexDigit_hexDigits (n : Nat) : ∀ {k : Nat} {w : List Char},
    List.Forall₂ EitherCase (hexDigits k n) w → ∀ c ∈ w, isAsciiHexDigit c = true
  | 0, _, .nil, _, hc => nomatch hc
  | k + 1, _ :: _, .cons hd hw, c, hc => by
    rcases List.mem_cons.1 hc with rfl | hc
    · exact (hexDigit_spec (Nat.mod_lt _ (by omega)) hd).1
    · exact isAsciiHexDigit_hexDigits n hw c hc

theorem charOf?_toNat (c : Char) : charOf? c.toNat = some c := by
  have hvalid : c.toNat.isValidChar := c.valid
  have hchar := Char.ofNat_toNat c
  rw [Char.ofNat, dif_pos hvalid] at hchar
  rw [charOf?, dif_pos hvalid, hchar]

theorem codePoint_hexDigits {k : Nat} {c : Char} (hc : c.toNat < 16 ^ k) {w : List Char}
    (hw : List.Forall₂ EitherCase (hexDigits k c.toNat) w) (rest : List Char) :
    codePoint k k (w ++ rest) = some (c, rest) := by
  have hlength : w.length = k := hw.length_eq.symm.trans (length_hexDigits _ k)
  have hdigits : ((w ++ rest).take k).takeWhile isAsciiHexDigit = w := by
    rw [List.take_left' hlength, List.takeWhile_eq_self_iff]
    exact isAsciiHexDigit_hexDigits _ hw
  simp only [codePoint, hdigits]
  rw [if_neg (by omega), hexValue_hexDigits hc hw, charOf?_toNat, List.drop_left]
  rfl

end Text

namespace ConstantToken

open Text

/-- The letters of escapes with the characters they stand for. -/
def escapeLetters : List (Char × Char) :=
  [('\'', '\''), ('"', '"'), ('\\', '\\'), ('0', '\x00'), ('a', '\x07'), ('b', '\x08'),
    ('e', '\x1b'), ('f', '\x0c'), ('n', '\n'), ('r', '\r'), ('t', '\t'), ('v', '\x0b')]

/-- How a character may be written in a plain string. -/
inductive Spelled (interpolated : Bool) : Char → List Char → Prop
  | asIs {c : Char} : c ≠ '"' → c ≠ '\\' → c ≠ '\n' → (interpolated && isBrace c) = false →
      Spelled interpolated c [c]
  | brace {c : Char} : interpolated = true → isBrace c = true → Spelled interpolated c [c, c]
  | letter {l c : Char} : (l, c) ∈ escapeLetters → Spelled interpolated c ['\\', l]
  | short {c : Char} {w : List Char} : c.toNat < 16 ^ 4 →
      List.Forall₂ EitherCase (hexDigits 4 c.toNat) w → Spelled interpolated c ('\\' :: 'u' :: w)
  | long {c : Char} {w : List Char} :
      List.Forall₂ EitherCase (hexDigits 8 c.toNat) w → Spelled interpolated c ('\\' :: 'U' :: w)

section Plain

variable {i : Bool} {c : Char}

theorem plain_asIs (hquote : c ≠ '"') (hslash : c ≠ '\\') (hbreak : c ≠ '\n')
    (hbrace : (i && isBrace c) = false) (rest : List Char) :
    plain i (c :: rest) = (plain i rest).map fun (v, r) => (c :: v, r) := by
  rw [plain.eq_def]
  dsimp only
  rw [if_neg hquote, if_neg hbreak, if_neg hslash, if_neg (by rw [hbrace]; nofun)]

theorem not_special_of_isBrace (hc : isBrace c = true) : c ≠ '"' ∧ c ≠ '\\' ∧ c ≠ '\n' := by
  refine ⟨?_, ?_, ?_⟩
  all_goals
    rintro rfl
    cases hc

theorem plain_brace (hc : isBrace c = true) (rest : List Char) :
    plain true (c :: c :: rest) = (plain true rest).map fun (v, r) => (c :: v, r) := by
  obtain ⟨hquote, hslash, hbreak⟩ := not_special_of_isBrace hc
  rw [plain.eq_def]
  dsimp only
  rw [if_neg hquote, if_neg hbreak, if_neg hslash, if_pos (by rw [hc]; rfl), if_pos rfl]

theorem escape_letter {l c : Char} (h : (l, c) ∈ escapeLetters) (rest : List Char) :
    escape (l :: rest) = some (c, rest) := by
  have hletters : ∀ p ∈ escapeLetters, p.1 ≠ 'u' ∧ p.1 ≠ 'U' ∧ p.1 ≠ 'x' ∧
      simpleEscape? p.1 = some p.2 := by decide
  obtain ⟨hu, hU, hx, hsimple⟩ := hletters _ h
  rw [escape, if_neg hu, if_neg hU, if_neg hx, hsimple]
  rfl

theorem plain_spelling {w : List Char} (h : Spelled i c w) (rest : List Char) :
    plain i (w ++ rest) = (plain i rest).map fun (v, r) => (c :: v, r) := by
  cases h with
  | asIs hquote hslash hbreak hbrace => exact plain_asIs hquote hslash hbreak hbrace rest
  | brace hi hc =>
    subst hi
    exact plain_brace hc rest
  | letter hl => exact plain_escape i (escape_letter hl rest)
  | short hc hw => exact plain_escape i (codePoint_hexDigits hc hw rest)
  | long hw =>
    have hc : c.toNat < 16 ^ 8 := by
      have hvalid := c.val.toNat_lt
      rw [Char.toNat]
      omega
    exact plain_escape i (codePoint_hexDigits hc hw rest)

/-- A plain string stands for the characters that are spelled in it. -/
theorem plain_spelled {s : List Char} {ws : List (List Char)}
    (h : List.Forall₂ (Spelled i) s ws) (rest : List Char) :
    plain i (ws.flatten ++ rest) = (plain i rest).map fun (v, r) => (s ++ v, r) := by
  induction h with
  | nil => exact Option.map_id'.symm
  | cons hc _ ih =>
    rw [List.flatten_cons, List.append_assoc, plain_spelling hc, ih, Option.map_map]
    rfl

theorem head?_spelling {w : List Char} (h : Spelled i c w) (rest : List Char) :
    (w ++ rest).head? ≠ some '"' := by
  cases h with
  | asIs hquote => exact fun h => hquote (Option.some_inj.1 h)
  | brace _ hc => exact fun h => (not_special_of_isBrace hc).1 (Option.some_inj.1 h)
  | letter | short | long => nofun

end Plain

section Verbatim

/-- A verbatim string's characters, those doubled that would mean something else. -/
def doubled (interpolated : Bool) (s : List Char) : List Char :=
  s.flatMap fun c => if c = '"' ∨ (interpolated && isBrace c) = true then [c, c] else [c]

theorem verbatim_doubled (i : Bool) (rest : List Char) : ∀ s : List Char,
    verbatim i (doubled i s ++ rest) = (verbatim i rest).map fun (v, r) => (s ++ v, r)
  | [] => Option.map_id'.symm
  | c :: s => by
    have hnext : (verbatim i (doubled i s ++ rest)).map (fun (v, r) => (c :: v, r))
        = (verbatim i rest).map fun (v, r) => (c :: s ++ v, r) := by
      rw [verbatim_doubled i rest s, Option.map_map]
      rfl
    rw [doubled, List.flatMap_cons, List.append_assoc, ← doubled, ← hnext]
    by_cases hquote : c = '"'
    · subst hquote
      rw [if_pos (.inl rfl), List.cons_append, List.singleton_append, verbatim.eq_def]
      rfl
    · by_cases hbrace : (i && isBrace c) = true
      · rw [if_pos (.inr hbrace), List.cons_append, List.singleton_append, verbatim.eq_def]
        dsimp only
        rw [if_neg hquote, if_pos hbrace, if_pos rfl]
      · rw [if_neg (by rintro (h | h); exacts [hquote h, hbrace h]), List.singleton_append,
          verbatim.eq_def]
        dsimp only
        rw [if_neg hquote, if_neg hbrace]

end Verbatim

section Hole

/-- What an interpolated plain string is made of up to its first hole, read or not: characters,
doubled braces, and backslashes with what is behind them. -/
inductive Chunk : List Char → Prop
  | char {c : Char} : c ≠ '"' → c ≠ '\\' → c ≠ '\n' → isBrace c = false → Chunk [c]
  | brace {c : Char} : isBrace c = true → Chunk [c, c]
  | backslash (c : Char) : Chunk ['\\', c]

theorem Chunk.head?_append {w : List Char} (h : Chunk w) (rest : List Char) :
    (w ++ rest).head? ≠ some '"' := by
  cases h with
  | char hquote => exact fun h => hquote (Option.some_inj.1 h)
  | brace hc => exact fun h => (not_special_of_isBrace hc).1 (Option.some_inj.1 h)
  | backslash => nofun

variable {hole : List Char}

/-- Digits in front of a hole are chunks of their own. -/
theorem exists_chunks_of_digits : ∀ {ws : List (List Char)} {digits rest : List Char},
    (∀ w ∈ ws, Chunk w) → (∀ c ∈ digits, isAsciiHexDigit c = true) →
      ws.flatten ++ '\x7b' :: hole = digits ++ rest →
        ∃ ws', ws' <:+ ws ∧ rest = ws'.flatten ++ '\x7b' :: hole
  | ws, [], rest, _, _, h => ⟨ws, List.suffix_rfl, h.symm⟩
  | [], d :: digits, rest, _, hdigits, h => by
    cases (List.cons.inj h).1
    cases hdigits _ List.mem_cons_self
  | w :: ws, d :: digits, rest, hws, hdigits, h => by
    have hd := hdigits d List.mem_cons_self
    rw [List.flatten_cons, List.append_assoc] at h
    cases hws w List.mem_cons_self with
    | char =>
      obtain ⟨ws', hsuffix, hrest⟩ := exists_chunks_of_digits
        (fun w hw => hws w (List.mem_cons_of_mem _ hw))
        (fun c hc => hdigits c (List.mem_cons_of_mem _ hc)) (List.cons.inj h).2
      exact ⟨ws', hsuffix.trans (List.suffix_cons _ _), hrest⟩
    | brace hbrace =>
      cases (List.cons.inj h).1
      rcases Bool.or_eq_true_iff.1 hbrace with hc | hc
      all_goals
        cases eq_of_beq hc
        cases hd
    | backslash c =>
      cases (List.cons.inj h).1
      cases hd

theorem exists_chunks_of_escape {c d : Char} {ws : List (List Char)} {rest : List Char}
    (hws : ∀ w ∈ ws, Chunk w)
    (h : escape (c :: (ws.flatten ++ '\x7b' :: hole)) = some (d, rest)) :
    ∃ ws', ws' <:+ ws ∧ rest = ws'.flatten ++ '\x7b' :: hole := by
  have hpoint {least most : Nat}
      (h : codePoint least most (ws.flatten ++ '\x7b' :: hole) = some (d, rest)) :
      ∃ ws', ws' <:+ ws ∧ rest = ws'.flatten ++ '\x7b' :: hole := by
    obtain ⟨digits, hdigits, hhex, -⟩ := exists_of_codePoint h
    exact exists_chunks_of_digits hws hhex hdigits
  rw [escape] at h
  split at h
  · exact hpoint h
  · split at h
    · exact hpoint h
    · split at h
      · exact hpoint h
      · obtain ⟨_, -, heq⟩ := Option.map_eq_some_iff.1 h
        cases heq
        exact ⟨ws, List.suffix_rfl, rfl⟩

/-- A single opening brace ends every attempt at reading a constant. -/
theorem plain_hole (hhole : hole.head? ≠ some '\x7b') : ∀ ws : List (List Char),
    (∀ w ∈ ws, Chunk w) → plain true (ws.flatten ++ '\x7b' :: hole) = none
  | [], _ => by
    rw [List.flatten_nil, List.nil_append, plain.eq_def]
    cases hole with
    | nil => rfl
    | cons c cs => exact if_neg fun hc => hhole (congrArg some hc)
  | w :: ws, hws => by
    have hrest : ∀ w ∈ ws, Chunk w := fun w hw => hws w (List.mem_cons_of_mem _ hw)
    have hnone := plain_hole hhole ws hrest
    rw [List.flatten_cons, List.append_assoc]
    cases hws w List.mem_cons_self with
    | char hquote hslash hbreak hbrace =>
      rw [List.singleton_append, plain_asIs hquote hslash hbreak (by rw [hbrace]; rfl), hnone]
      rfl
    | brace hbrace =>
      rw [List.cons_append, List.singleton_append, plain_brace hbrace, hnone]
      rfl
    | backslash c =>
      rw [List.cons_append, List.singleton_append]
      cases hescape : escape (c :: (ws.flatten ++ '\x7b' :: hole)) with
      | none => exact plain_escape_none true hescape
      | some p =>
        obtain ⟨d, rest⟩ := p
        obtain ⟨ws', hsuffix, heq⟩ := exists_chunks_of_escape hrest hescape
        have hlength := hsuffix.length_le
        rw [plain_escape true hescape, heq,
          plain_hole hhole ws' fun w hw => hrest w (hsuffix.subset hw)]
        rfl
termination_by ws => ws.length
decreasing_by
  all_goals
    rw [List.length_cons]
    omega

end Hole

end ConstantToken

end TaskWrappers
