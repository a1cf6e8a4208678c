import TaskWrappers.Proofs.ConstantExpr.Literal
import TaskWrappers.Proofs.ConstantExpr.Path
import TaskWrappers.Proofs.TypeExpr.Exact

/-!
# Names written verbatim

A name means the same with an `@` in front of it. Texts that differ at most in which of their names
have one (`Text.SameWords`) have the same tokens, as types and as constant expressions, so they are
read as the same type (`TypeExpr.read_eq_of_sameText`) and have the same value
(`ConstantExpr.value?_eq_of_sameText`). In a string an `@` is a character like others, so strings
are the same in both.
-/

namespace TaskWrappers

open TypeToken (Breaks breaks_cons)

namespace Text

/-- A name as it is written, verbatim or not. -/
def written (isVerbatim : Bool) (name : String) : List Char :=
  if isVerbatim then '@' :: name.toList else name.toList

/-- Whether neither a name nor a string can start with a character. -/
def isSign (c : Char) : Bool := !isNameStart c && c != '@' && c != '$' && c != '"'

def withoutAts (cs : List Char) : List Char := cs.filter (· != '@')

/-- Texts that differ at most in which of their names are written verbatim. Behind a string that is
no constant there may be names in its holes, so there it is only said that the rest is the same
apart from all `@`. -/
inductive SameWords : List Char → List Char → Prop where
  | same (cs : List Char) : SameWords cs cs
  | sign {c : Char} {cs ds : List Char} : isSign c = true → SameWords cs ds →
      SameWords (c :: cs) (c :: ds)
  | name {n : String} {cs ds : List Char} (inFirst inSecond : Bool) : isName n = true →
      Breaks cs → Breaks ds → SameWords cs ds →
        SameWords (written inFirst n ++ cs) (written inSecond n ++ ds)
  | literal {lit value cs ds : List Char} :
      ConstantToken.string? (lit ++ cs) = some (some (value, cs)) → SameWords cs ds →
        SameWords (lit ++ cs) (lit ++ ds)
  | broken {cs ds : List Char} : ConstantToken.string? cs = some none →
      ConstantToken.string? ds = some none → cs.head? = ds.head? →
        withoutAts cs = withoutAts ds → SameWords cs ds

theorem withoutAts_written (isVerbatim : Bool) {n : String} (hn : isName n = true) :
    withoutAts (written isVerbatim n) = n.toList := by
  have hat : '@' ∉ n.toList := not_mem_of_isName hn (by decide)
  have hplain : withoutAts n.toList = n.toList :=
    List.filter_eq_self.2 fun c hc => bne_iff_ne.2 fun heq => hat (heq ▸ hc)
  cases isVerbatim with
  | false => exact hplain
  | true => exact hplain

/-- A name as it is written starts with a character of its own or with its `@`. -/
theorem exists_of_written (isVerbatim : Bool) {n : String} (hn : isName n = true) :
    ∃ c rest, written isVerbatim n = c :: rest ∧ (c = '@' ∨ isNameStart c = true) := by
  obtain ⟨c, rest, hname, hstart, -⟩ := isName_iff.1 hn
  cases isVerbatim with
  | false => exact ⟨c, rest, hname, .inr hstart⟩
  | true => exact ⟨'@', n.toList, rfl, .inl rfl⟩

theorem isSign_iff {c : Char} :
    isSign c = true ↔ isNameStart c = false ∧ c ≠ '@' ∧ c ≠ '$' ∧ c ≠ '"' := by
  simp [isSign, and_assoc]

end Text

open Text

namespace ConstantToken

variable {cs : List Char}

/-- A string starts with a quotation mark or what can stand in front of one. -/
theorem string?_of_isSign {c : Char} (h : isSign c = true) : string? (c :: cs) = none := by
  obtain ⟨-, hat, hdollar, hquote⟩ := isSign_iff.1 h
  cases hs : string? (c :: cs) with
  | none => rfl
  | some found =>
    obtain ⟨d, rest, heq, hd⟩ := exists_of_string? hs
    cases heq
    rcases hd with rfl | rfl | rfl <;> contradiction

theorem scan_sign {c : Char} (hc : isSign c = true) (hspace : isSpace c = false)
    (hcolons : c = ':' → cs.head? ≠ some ':') :
    scan (c :: cs) = (scan cs).map (ofChar c :: ·) := by
  obtain ⟨hstart, hat, -, -⟩ := isSign_iff.1 hc
  have hpair : ¬(c = ':' && cs.head? = some ':') = true := by
    simpa using hcolons
  rw [scan_unquoted (by simp [hspace]) (string?_of_isSign hc), if_neg (by simp [hat]),
    if_neg (by simp [hstart]), if_neg hpair]

theorem scan_written (isVerbatim : Bool) {n : String} (hn : isName n = true) (hcs : Breaks cs) :
    scan (written isVerbatim n ++ cs) = (scan cs).map (name n :: ·) := by
  cases isVerbatim with
  | false => exact scan_name hn hcs
  | true =>
    obtain ⟨c, rest, hname, hstart, -⟩ := isName_iff.1 hn
    obtain ⟨htake, hdrop⟩ := takeWhile_append_of_isNameRest hcs (isNameRest_of_isName hn)
    have hhead : ((n.toList ++ cs).head?.map isNameStart).getD false = true := by
      rw [hname]
      exact hstart
    change scan ('@' :: (n.toList ++ cs)) = _
    have hstring : string? ('@' :: (n.toList ++ cs)) = none := by
      rw [hname, List.cons_append]
      generalize rest ++ cs = more
      unfold string?
      split
      all_goals first | rfl | (rename_i heq; cases heq <;> exact absurd hstart (by decide))
    rw [scan_unquoted (by decide) hstring, hhead, if_pos (by decide), htake, hdrop,
      String.ofList_toList]

end ConstantToken

namespace TypeToken

variable {cs : List Char}

theorem scan_written (isVerbatim : Bool) {n : String} (hn : isName n = true) (hcs : Breaks cs) :
    scan (written isVerbatim n ++ cs) = (scan cs).map (name n :: ·) := by
  cases isVerbatim with
  | false => exact scan_name_append hn hcs
  | true => exact scan_verbatim_append hn hcs

/-- No type starts like a string. -/
theorem scan_string {found : Option (List Char × List Char)}
    (h : ConstantToken.string? cs = some found) :
    ∃ c rest, cs = c :: rest ∧ scan cs = .error (if c = '@' then .bareAt else .badChar c) := by
  unfold ConstantToken.string? at h
  split at h
  all_goals first
    | cases h; done
    | exact ⟨_, _, rfl, by rw [scan.eq_def]; rfl⟩

theorem scan_colon (cs : List Char) :
    scan (':' :: cs) = match cs with
      | ':' :: cs => (scan cs).map (colons :: ·)
      | _ => .error .loneColon := by
  rw [scan.eq_def]
  rfl

theorem scan_sign {c : Char} (hc : isSign c = true) (hspace : isSpace c = false)
    (hcolon : c ≠ ':') :
    scan (c :: cs) = (ofChar? c).elim (.error (.badChar c)) fun t => (scan cs).map (t :: ·) := by
  obtain ⟨hstart, hat, -, -⟩ := isSign_iff.1 hc
  rw [scan.eq_def]
  simp only [hspace, hstart, hat, hcolon, Bool.false_eq_true, if_false]
  cases ofChar? c <;> rfl

end TypeToken

namespace Text.SameWords

variable {cs ds : List Char}

theorem withoutAts_eq (h : SameWords cs ds) : withoutAts cs = withoutAts ds := by
  have happend (as bs : List Char) : withoutAts (as ++ bs) = withoutAts as ++ withoutAts bs :=
    List.filter_append as bs
  induction h with
  | same => rfl
  | sign _ _ ih => rw [← List.singleton_append, happend, ih, ← happend, List.singleton_append]
  | name v w hn _ _ _ ih =>
    rw [happend, happend, withoutAts_written v hn, withoutAts_written w hn, ih]
  | literal _ _ ih => rw [happend, happend, ih]
  | broken _ _ _ h => exact h

/-- Strings are not empty. -/
theorem exists_of_literal {lit value : List Char}
    (h : ConstantToken.string? (lit ++ cs) = some (some (value, cs))) :
    ∃ c rest, lit = c :: rest ∧ (c = '"' ∨ c = '@' ∨ c = '$') := by
  cases lit with
  | nil => exact absurd (ConstantToken.length_string? h) (Nat.lt_irrefl _)
  | cons c rest =>
    obtain ⟨d, more, heq, hd⟩ := ConstantToken.exists_of_string? h
    cases heq
    exact ⟨c, rest, rfl, hd⟩

/-- Two texts start alike, or both with a name. -/
theorem head?_eq_or (h : SameWords cs ds) : cs.head? = ds.head? ∨
    ∀ c, cs.head? = some c ∨ ds.head? = some c → c = '@' ∨ isNameStart c = true := by
  cases h with
  | same => exact .inl rfl
  | sign => exact .inl rfl
  | name v w hn =>
    obtain ⟨c, rest, hv, hc⟩ := exists_of_written v hn
    obtain ⟨d, more, hw, hd⟩ := exists_of_written w hn
    rw [hv, hw]
    refine .inr fun e he => ?_
    rcases he with he | he
    · cases he
      exact hc
    · cases he
      exact hd
  | literal h =>
    obtain ⟨c, rest, rfl, -⟩ := exists_of_literal h
    exact .inl rfl
  | broken _ _ h => exact .inl h

/-- A character that starts no name and stands at the head of one text does so in the other. -/
theorem head?_eq_some {c : Char} (h : SameWords cs ds) (hat : c ≠ '@')
    (hstart : isNameStart c = false) (hc : ds.head? = some c) : cs.head? = some c := by
  rcases h.head?_eq_or with heq | hname
  · rw [heq, hc]
  · rcases hname c (.inr hc) with rfl | hname
    · exact absurd rfl hat
    · rw [hstart] at hname
      cases hname

theorem ne_colon_of_written {isVerbatim : Bool} {n : String} (hn : isName n = true)
    {cs' : List Char} : written isVerbatim n ++ cs ≠ ':' :: cs' := by
  obtain ⟨c, rest, hv, hc⟩ := exists_of_written isVerbatim hn
  rw [hv]
  rintro heq
  cases heq
  rcases hc with hc | hc
  · cases hc
  · exact absurd hc (by decide)

theorem ne_colon_of_string? {found : Option (List Char × List Char)}
    (h : ConstantToken.string? cs = some found) {cs' : List Char} : cs ≠ ':' :: cs' := by
  obtain ⟨c, rest, rfl, hc⟩ := ConstantToken.exists_of_string? h
  rintro heq
  cases heq
  rcases hc with hc | hc | hc <;> cases hc

theorem exists_of_colon {cs' : List Char} (h : SameWords (':' :: cs') ds) :
    ∃ ds', ds = ':' :: ds' := by
  generalize hcs : ':' :: cs' = cs at h
  cases h with
  | same => exact ⟨cs', hcs.symm⟩
  | sign =>
    cases hcs
    exact ⟨_, rfl⟩
  | name _ _ hn => exact absurd hcs.symm (ne_colon_of_written hn)
  | literal h => exact absurd hcs.symm (ne_colon_of_string? h)
  | broken h => exact absurd hcs.symm (ne_colon_of_string? h)

/-- What is read token by token is read alike from both texts. Two colons are one token, so behind
a sign it may be known that the texts agree behind a colon that follows as well. -/
theorem congr {α : Type} {f : List Char → α}
    (hsign : ∀ {c cs ds}, isSign c = true → SameWords cs ds → f cs = f ds →
      (∀ cs' ds', cs = ':' :: cs' → ds = ':' :: ds' → f cs' = f ds') → f (c :: cs) = f (c :: ds))
    (hname : ∀ {n : String} {cs ds} (v w : Bool), isName n = true → Breaks cs → Breaks ds →
      f cs = f ds → f (written v n ++ cs) = f (written w n ++ ds))
    (hliteral : ∀ {lit value cs ds},
      ConstantToken.string? (lit ++ cs) = some (some (value, cs)) →
        ConstantToken.string? (lit ++ ds) = some (some (value, ds)) →
          f cs = f ds → f (lit ++ cs) = f (lit ++ ds))
    (hbroken : ∀ {cs ds}, ConstantToken.string? cs = some none →
      ConstantToken.string? ds = some none → cs.head? = ds.head? → f cs = f ds)
    (h : SameWords cs ds) : f cs = f ds := by
  have hboth : f cs = f ds ∧ ∀ cs' ds', cs = ':' :: cs' → ds = ':' :: ds' → f cs' = f ds' := by
    induction h with
    | same cs =>
      refine ⟨rfl, fun cs' ds' hcs hds => ?_⟩
      rw [hcs] at hds
      cases hds
      rfl
    | sign hc h ih =>
      refine ⟨hsign hc h ih.1 ih.2, fun cs' ds' hcs hds => ?_⟩
      cases hcs
      cases hds
      exact ih.1
    | name v w hn hcs hds _ ih =>
      exact ⟨hname v w hn hcs hds ih.1, fun _ _ hcs => absurd hcs (ne_colon_of_written hn)⟩
    | literal hlit h ih =>
      have hlit' := ConstantToken.string?_append hlit (h.head?_eq_some (by decide) (by decide))
      exact ⟨hliteral hlit hlit' ih.1, fun _ _ hcs => absurd hcs (ne_colon_of_string? hlit)⟩
    | broken hcs hds hhead =>
      exact ⟨hbroken hcs hds hhead, fun _ _ hcolon => absurd hcolon (ne_colon_of_string? hcs)⟩
  exact hboth.1

end Text.SameWords

namespace ConstantToken

theorem scan_eq_of_sameWords {cs ds : List Char} (h : SameWords cs ds) : scan cs = scan ds := by
  refine h.congr (fun {c cs ds} hc h heq hbehind => ?_) (fun v w hn hcs hds heq => ?_)
    (fun hlit hlit' heq => ?_) fun hcs hds _ => ?_
  · cases hspace : isSpace c with
    | true => rw [scan, scan, if_pos hspace, if_pos hspace, heq]
    | false =>
      by_cases hcolons : c = ':' → cs.head? ≠ some ':'
      · have hcolons' : c = ':' → ds.head? ≠ some ':' := fun hcolon hds =>
          hcolons hcolon (h.head?_eq_some (by decide) (by decide) hds)
        rw [scan_sign hc hspace hcolons, scan_sign hc hspace hcolons', heq]
      · obtain ⟨rfl, hhead⟩ := Classical.not_imp.1 hcolons
        obtain ⟨cs', rfl⟩ := List.head?_eq_some_iff.1 (not_not.1 hhead)
        obtain ⟨ds', rfl⟩ := h.exists_of_colon
        rw [scan_colons, scan_colons, hbehind cs' ds' rfl rfl]
  · rw [scan_written v hn hcs, scan_written w hn hds, heq]
  · rw [scan_string hlit, scan_string hlit']
    exact congrArg (Option.map _) heq
  · rw [scan_string hcs, scan_string hds]

end ConstantToken

namespace TypeToken

theorem scan_eq_of_sameWords {cs ds : List Char} (h : SameWords cs ds) : scan cs = scan ds := by
  have hstring {cs ds : List Char} {found found' : Option (List Char × List Char)}
      (hcs : ConstantToken.string? cs = some found) (hds : ConstantToken.string? ds = some found')
      (hhead : cs.head? = ds.head?) : scan cs = scan ds := by
    obtain ⟨c, rest, rfl, hc⟩ := scan_string hcs
    obtain ⟨d, more, rfl, hd⟩ := scan_string hds
    cases hhead
    rw [hc, hd]
  refine h.congr (fun {c cs ds} hc h heq hbehind => ?_) (fun v w hn hcs hds heq => ?_)
    (fun hlit hlit' _ => ?_) fun hcs hds hhead => hstring hcs hds hhead
  · cases hspace : isSpace c with
    | true =>
      have hone : ∀ d ∈ [c], isSpace d = true := by simpa using hspace
      have hcs := scan_spaces_append hone cs
      have hds := scan_spaces_append hone ds
      rw [List.singleton_append] at hcs hds
      rw [hcs, hds, heq]
    | false =>
      by_cases hcolon : c = ':'
      · rw [hcolon, scan_colon, scan_colon]
        split
        · obtain ⟨ds', rfl⟩ := h.exists_of_colon
          exact congrArg (Except.map _) (hbehind _ _ rfl rfl)
        · rename_i hlone
          split
          · rename_i ds'
            obtain ⟨cs', rfl⟩ := List.head?_eq_some_iff.1
              (h.head?_eq_some (c := ':') (by decide) (by decide) rfl)
            exact absurd rfl (hlone cs')
          · rfl
      · rw [scan_sign hc hspace hcolon, scan_sign hc hspace hcolon, heq]
  · rw [scan_written v hn hcs, scan_written w hn hds, heq]
  · obtain ⟨c, rest, rfl, -⟩ := SameWords.exists_of_literal hlit
    exact hstring hlit hlit' rfl

end TypeToken

/-- Whether strings are the same but for names that are written verbatim in one of them. -/
def Text.SameText (s t : String) : Prop := SameWords s.toList t.toList

example : SameText "Names.Send + \"Mail\"" "@Names.@Send + \"Mail\"" := by
  have hend : Breaks " + \"Mail\"".toList := breaks_cons (by decide)
  have hplus : SameWords " + \"Mail\"".toList " + \"Mail\"".toList := .same _
  have hsend := SameWords.name (n := "Send") false true (by decide) hend hend hplus
  have hdot := SameWords.sign (c := '.') (by decide) hsend
  exact SameWords.name (n := "Names") false true (by decide) (breaks_cons (by decide))
    (breaks_cons (by decide)) hdot

theorem TypeExpr.read_eq_of_sameText {s t : String} (h : SameText s t) : read s = read t :=
  read_congr (TypeToken.scan_eq_of_sameWords h)

theorem ConstantExpr.value?_eq_of_sameText {s t : String} (h : SameText s t) (lookup : Lookup) :
    value? lookup s = value? lookup t := by
  rw [value?, value?, ConstantToken.scan_eq_of_sameWords h]

end TaskWrappers
