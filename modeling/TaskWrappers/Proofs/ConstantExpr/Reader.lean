import TaskWrappers.Proofs.ConstantExpr.Grammar

/-!
# Reading constant expressions

The readers follow the grammar. On the tokens of a phrase with something behind it that cannot
belong to it, they give the value that the phrase's pieces have together, and what is behind it
(`sum_derives`); and whatever they accept starts with a phrase (`reads_of_sum`), provided that no
path opens with `global::`. So an expression has the value of the pieces it spells, if it
spells any (`value?_iff`).
-/

namespace TaskWrappers.ConstantExpr

open ConstantToken

section Nameof

/-- Tokens that neither name anything nor open or close anything. -/
def isIdle : ConstantToken → Bool
  | leftParen | rightParen | name _ | other '<' | other '>' => false
  | _ => true

theorem idle_cons {t : ConstantToken} (h : isIdle t = true) (depth angles : Nat)
    (last : Option String) (ts : List ConstantToken) :
    nameof depth angles last (t :: ts) = nameof depth angles last ts ∧
      (Balanced depth (t :: ts) ↔ Balanced depth ts) ∧
        visibleNames depth angles (t :: ts) = visibleNames depth angles ts := by
  unfold isIdle at h
  split at h
  all_goals cases h
  rename_i h1 h2 h3 h4 h5
  refine ⟨?_, ?_, ?_⟩
  · rw [nameof]
    all_goals assumption
  · rw [Balanced]
    · exact h1
    · exact fun _ => h2
    · exact fun _ _ => h2
  · rw [visibleNames]
    all_goals first | assumption | exact fun n _ _ => h3 n

/-- A token is a name, or opens or closes something, or is idle. -/
theorem token_cases (t : ConstantToken) :
    t = leftParen ∨ t = rightParen ∨ (∃ n, t = name n) ∨ t = other '<' ∨ t = other '>' ∨
      isIdle t = true := by
  unfold isIdle
  split
  · exact .inl rfl
  · exact .inr (.inl rfl)
  · exact .inr (.inr (.inl ⟨_, rfl⟩))
  · exact .inr (.inr (.inr (.inl rfl)))
  · exact .inr (.inr (.inr (.inr (.inl rfl))))
  · exact .inr (.inr (.inr (.inr (.inr rfl))))

theorem visibleNames_name (depth angles : Nat) (n : String) (ts : List ConstantToken) :
    visibleNames depth angles (name n :: ts)
      = if depth = 0 ∧ angles = 0 then n :: visibleNames depth angles ts
        else visibleNames depth angles ts := by
  split
  · rename_i h
    obtain ⟨rfl, rfl⟩ := h
    rfl
  · rename_i h
    rw [visibleNames]
    all_goals simp_all

theorem or_getLast?_cons (n : String) (ns : List String) (last : Option String) :
    (n :: ns).getLast?.or last = ns.getLast?.or (some n) := by
  rw [List.getLast?_cons]
  cases ns.getLast? <;> rfl

/-- On a balanced body `nameof` stands for the last name in sight. -/
theorem nameof_balanced (rest : List ConstantToken) : ∀ (body : List ConstantToken)
    (depth angles : Nat) (last : Option String), Balanced depth body →
      nameof depth angles last (body ++ rightParen :: rest)
        = ((visibleNames depth angles body).getLast?.or last).map (·, rest)
  | [], depth, angles, last, h => by
    rw [Balanced] at h
    subst h
    rfl
  | t :: body, depth, angles, last, h => by
    rw [List.cons_append]
    rcases token_cases t with rfl | rfl | ⟨n, rfl⟩ | rfl | rfl | hidle
    · exact nameof_balanced rest body (depth + 1) angles last h
    · cases depth with
      | zero => exact absurd h id
      | succ depth => exact nameof_balanced rest body depth angles last h
    · have hbody := nameof_balanced rest body depth angles
        (if depth = 0 ∧ angles = 0 then some n else last) h
      rw [visibleNames_name]
      refine hbody.trans ?_
      split
      · rw [or_getLast?_cons]
      · rfl
    · exact nameof_balanced rest body depth (angles + 1) last h
    · exact nameof_balanced rest body depth (angles - 1) last h
    · obtain ⟨hread, -, -⟩ := idle_cons hidle depth angles last (body ++ rightParen :: rest)
      obtain ⟨-, hbalanced, hvisible⟩ := idle_cons hidle depth angles last body
      rw [hread, hvisible]
      exact nameof_balanced rest body depth angles last (hbalanced.1 h)

/-- What `nameof` reads is a balanced body with its closing parenthesis. -/
theorem exists_balanced_of_nameof : ∀ (ts : List ConstantToken) {rest : List ConstantToken}
    {depth angles : Nat} {last : Option String} {n : String},
      nameof depth angles last ts = some (n, rest) →
        ∃ body, ts = body ++ rightParen :: rest ∧ Balanced depth body
  | [], rest, depth, angles, last, n, h => by cases h
  | t :: ts, rest, depth, angles, last, n, h => by
    rcases token_cases t with rfl | rfl | ⟨w, rfl⟩ | rfl | rfl | hidle
    · obtain ⟨body, rfl, hbody⟩ := exists_balanced_of_nameof ts h
      exact ⟨leftParen :: body, rfl, hbody⟩
    · cases depth with
      | zero =>
        obtain ⟨_, -, heq⟩ := Option.map_eq_some_iff.1 h
        cases heq
        exact ⟨[], rfl, rfl⟩
      | succ depth =>
        obtain ⟨body, rfl, hbody⟩ := exists_balanced_of_nameof ts h
        exact ⟨rightParen :: body, rfl, hbody⟩
    · obtain ⟨body, rfl, hbody⟩ := exists_balanced_of_nameof ts h
      exact ⟨name w :: body, rfl, hbody⟩
    · obtain ⟨body, rfl, hbody⟩ := exists_balanced_of_nameof ts h
      exact ⟨other '<' :: body, rfl, hbody⟩
    · obtain ⟨body, rfl, hbody⟩ := exists_balanced_of_nameof ts h
      exact ⟨other '>' :: body, rfl, hbody⟩
    · rw [(idle_cons hidle depth angles last ts).1] at h
      obtain ⟨body, rfl, hbody⟩ := exists_balanced_of_nameof ts h
      exact ⟨t :: body, rfl, (idle_cons hidle depth angles last body).2.1.2 hbody⟩

theorem nameof_iff {ts rest : List ConstantToken} {n : String} :
    nameof 0 0 none ts = some (n, rest) ↔
      ∃ body, ts = body ++ rightParen :: rest ∧ Balanced 0 body ∧
        (visibleNames 0 0 body).getLast? = some n := by
  constructor
  · intro h
    obtain ⟨body, rfl, hbody⟩ := exists_balanced_of_nameof ts h
    rw [nameof_balanced rest body 0 0 none hbody, Option.or_none] at h
    obtain ⟨_, hlast, heq⟩ := Option.map_eq_some_iff.1 h
    cases heq
    exact ⟨body, rfl, hbody, hlast⟩
  · rintro ⟨body, rfl, hbody, hlast⟩
    rw [nameof_balanced rest body 0 0 none hbody, Option.or_none, hlast]
    rfl

end Nameof

section Path

/-- What may stand behind a phrase: a term ends before a plus or a closing parenthesis, and a sum
before a closing parenthesis alone. -/
def Ends (phrase : Phrase) (ts : List ConstantToken) : Prop :=
  ∀ t, ts.head? = some t → t = rightParen ∨ (phrase = .term ∧ t = plus)

theorem Ends.term {ts : List ConstantToken} (h : Ends .sum ts) : Ends .term ts := by
  intro t ht
  rcases h t ht with rfl | ⟨hphrase, -⟩
  · exact .inl rfl
  · cases hphrase

theorem ends_nil (phrase : Phrase) : Ends phrase [] := by
  intro t ht
  cases ht

theorem ends_rightParen (phrase : Phrase) (ts : List ConstantToken) :
    Ends phrase (rightParen :: ts) := by
  intro t ht
  cases ht
  exact .inl rfl

theorem ends_plus (ts : List ConstantToken) : Ends .term (plus :: ts) := by
  intro t ht
  cases ht
  exact .inr ⟨rfl, rfl⟩

theorem path_end {first : String} {ts : List ConstantToken} (h : Ends .term ts) :
    path first ts = some (first, ts) := by
  unfold path
  split
  · exact absurd (h _ rfl) (by simp)
  · exact absurd (h _ rfl) (by simp)
  · rfl

/-- Behind a path's first name stands neither what makes it `nameof` nor what makes it `global`. -/
theorem head?_memberTokens {rest : List ConstantToken} (h : Ends .term rest) (names : List String) :
    (memberTokens names ++ rest).head? ≠ some leftParen ∧
      (memberTokens names ++ rest).head? ≠ some colons := by
  cases names with
  | nil =>
    constructor
    · intro hhead
      simpa using h _ hhead
    · intro hhead
      simpa using h _ hhead
  | cons n names => simp [memberTokens]

theorem dotted_cons_cons (first n : String) (names : List String) :
    Scope.dotted (first :: n :: names) = Scope.dotted ((first ++ "." ++ n) :: names) := by
  rw [Scope.dotted, Scope.dotted, String.intercalate_cons_cons, String.intercalate_cons_append]

/-- A path is read as its names with dots between. -/
theorem path_members {rest : List ConstantToken} (h : Ends .term rest) :
    ∀ (names : List String) (first : String),
      path first (memberTokens names ++ rest) = some (Scope.dotted (first :: names), rest)
  | [], first => by
    rw [Scope.dotted, String.intercalate_singleton]
    exact path_end h
  | n :: names, first => by
    rw [dotted_cons_cons]
    exact path_members h names (first ++ "." ++ n)

theorem exists_members_of_path {first p : String} {ts rest : List ConstantToken}
    (h : path first ts = some (p, rest)) :
    ∃ names, ts = memberTokens names ++ rest ∧ p = Scope.dotted (first :: names) := by
  fun_induction path first ts with
  | case1 first n ts ih =>
    obtain ⟨names, rfl, rfl⟩ := ih h
    exact ⟨n :: names, rfl, (dotted_cons_cons first n names).symm⟩
  | case2 => cases h
  | case3 first ts _ _ =>
    cases h
    exact ⟨[], rfl, by rw [Scope.dotted, String.intercalate_singleton]⟩

theorem fullPath_eq {first : String} {ts : List ConstantToken}
    (h : ts.head? = some colons → first ≠ "global") : fullPath first ts = path first ts := by
  unfold fullPath
  split
  · rw [if_neg (h rfl)]
  · rfl

end Path

section Sum

variable {lookup : Lookup}

/-- How a phrase is read, where the number bounds its length. -/
def readPhrase (lookup : Lookup) : Phrase → Nat → List ConstantToken →
    Option (String × List ConstantToken)
  | .term, n => term lookup (sum lookup n)
  | .sum, n => sum lookup (n + 1)

theorem term_path {first : String} {ts : List ConstantToken}
    {inner : List ConstantToken → Option (String × List ConstantToken)}
    (h : first = "nameof" → ts.head? ≠ some leftParen) :
    term lookup inner (name first :: ts)
      = (fullPath first ts).bind fun (path, rest) => (lookup path).map (·, rest) := by
  unfold term
  split
  · rename_i heq
    cases heq
  · rename_i heq
    cases heq
  · rename_i heq
    cases heq
    exact absurd rfl (h rfl)
  · rename_i heq
    cases heq
    cases fullPath first ts with
    | none => rfl
    | some r =>
      obtain ⟨p, rest⟩ := r
      show (lookup p).bind (fun value => some (value, rest)) = (lookup p).map (·, rest)
      cases lookup p <;> rfl
  · rename_i h3
    exact absurd rfl (h3 first ts)

/-- What a sum makes of what its first term leaves. -/
def readMore (lookup : Lookup) (n : Nat) (value : String) :
    List ConstantToken → Option (String × List ConstantToken)
  | plus :: ts => (sum lookup n ts).map fun (more, rest) => (value ++ more, rest)
  | ts => some (value, ts)

theorem readMore_of_ne {ts : List ConstantToken} {n : Nat} {value : String}
    (h : ∀ us, ts ≠ plus :: us) : readMore lookup n value ts = some (value, ts) := by
  unfold readMore
  split
  · exact absurd rfl (h _)
  · rfl

theorem sum_succ (n : Nat) (ts : List ConstantToken) :
    sum lookup (n + 1) ts
      = (term lookup (sum lookup n) ts).bind fun (value, rest) =>
          readMore lookup n value rest := by
  rw [sum]
  cases term lookup (sum lookup n) ts with
  | none => rfl
  | some r =>
    obtain ⟨value, rest⟩ := r
    cases rest with
    | nil => rfl
    | cons t us =>
      cases t with
      | plus =>
        show (sum lookup n us).bind (fun (more, us) => some (value ++ more, us))
          = (sum lookup n us).map fun (more, us) => (value ++ more, us)
        cases sum lookup n us <;> rfl
      | _ => rfl

/-- On the tokens of a phrase the readers give the joined value of its pieces. -/
theorem sum_derives {phrase : Phrase} {ts : List ConstantToken} {ps : List Piece}
    (h : Derives phrase ts ps) : ∀ (rest : List ConstantToken) (n : Nat), Ends phrase rest →
      ts.length ≤ n + 1 →
        readPhrase lookup phrase n (ts ++ rest) = (join lookup ps).map (·, rest) := by
  -- what stands in parentheses or behind a plus is shorter, which pays for the bound
  induction h with
  | text value =>
    intro rest n _ _
    rw [join_singleton]
    rfl
  | @parens ts ps _ ih =>
    intro rest n _ hlen
    simp only [List.length_cons, List.length_append, List.length_nil] at hlen
    obtain ⟨k, rfl⟩ : ∃ k, n = k + 1 := ⟨n - 1, by omega⟩
    have hsum := ih (rightParen :: rest) k (ends_rightParen .sum rest) (by omega)
    rw [readPhrase] at hsum
    rw [readPhrase, List.cons_append, List.append_assoc, List.singleton_append, term, hsum]
    cases join lookup ps with
    | none => rfl
    | some value => rfl
  | @nameof body n hbody hlast =>
    intro rest k _ _
    have hread : nameof 0 0 none (body ++ rightParen :: rest) = some (n, rest) :=
      nameof_iff.2 ⟨body, rfl, hbody, hlast⟩
    rw [readPhrase, List.cons_append, List.cons_append, List.append_assoc, List.singleton_append,
      term, hread, join_singleton]
    rfl
  | path first names =>
    intro rest n hrest _
    obtain ⟨hparen, hcolons⟩ := head?_memberTokens hrest names
    rw [readPhrase, List.cons_append, term_path fun _ => hparen,
      fullPath_eq fun h => absurd h hcolons, path_members hrest, join_singleton]
    rfl
  | @last ts ps _ ih =>
    intro rest n hrest hlen
    have hterm := ih rest n hrest.term hlen
    rw [readPhrase] at hterm
    rw [readPhrase, sum_succ, hterm]
    cases join lookup ps with
    | none => rfl
    | some value =>
      refine readMore_of_ne fun us heq => ?_
      rcases hrest plus (by rw [heq]; rfl) with h | ⟨h, -⟩ <;> cases h
  | @plus ts us ps qs hterm hsum ih ih' =>
    intro rest n hrest hlen
    have hpos : 0 < ts.length := List.length_pos_iff.2 hterm.ne_nil
    simp only [List.length_cons, List.length_append] at hlen
    obtain ⟨k, rfl⟩ : ∃ k, n = k + 1 := ⟨n - 1, by omega⟩
    have hfirst := ih (plus :: (us ++ rest)) (k + 1) (ends_plus _) (by omega)
    have hmore := ih' rest k hrest (by omega)
    rw [readPhrase] at hfirst
    rw [readPhrase] at hmore
    rw [readPhrase, List.append_assoc, List.cons_append, sum_succ, hfirst, join_append]
    cases join lookup ps with
    | none => rfl
    | some value =>
      show (sum lookup (k + 1) (us ++ rest)).map _ = _
      rw [hmore]
      cases join lookup qs <;> rfl

/-- A phrase at the start of tokens with the value its pieces have, and what follows it. -/
def Reads (lookup : Lookup) (phrase : Phrase) (ts : List ConstantToken) (value : String)
    (rest : List ConstantToken) : Prop :=
  ∃ used ps, ts = used ++ rest ∧ Derives phrase used ps ∧ join lookup ps = some value

theorem usesGlobal_append (ts : List ConstantToken) {us : List ConstantToken}
    (h : usesGlobal (ts ++ us) = false) : usesGlobal us = false := by
  induction ts with
  | nil => exact h
  | cons t ts ih =>
    rw [List.cons_append, usesGlobal, Bool.or_eq_false_iff] at h
    exact ih h.2

theorem Reads.of_path {first p : String} {ts rest : List ConstantToken} {value : String}
    (hglobal : usesGlobal (name first :: ts) = false) (hpath : fullPath first ts = some (p, rest))
    (hvalue : lookup p = some value) : Reads lookup .term (name first :: ts) value rest := by
  have hfirst : ts.head? = some colons → first ≠ "global" := by
    rintro hcolons rfl
    simp [usesGlobal, hcolons] at hglobal
  rw [fullPath_eq hfirst] at hpath
  obtain ⟨names, rfl, rfl⟩ := exists_members_of_path hpath
  exact ⟨_, _, rfl, .path first names, (join_singleton _ _).trans hvalue⟩

/-- What is read as a term is one, if what is read as a sum in its parentheses is. -/
theorem reads_of_term {inner : List ConstantToken → Option (String × List ConstantToken)}
    (hinner : ∀ {ts value rest}, usesGlobal ts = false → inner ts = some (value, rest) →
      Reads lookup .sum ts value rest) {ts rest : List ConstantToken} {value : String}
    (hglobal : usesGlobal ts = false) (h : term lookup inner ts = some (value, rest)) :
    Reads lookup .term ts value rest := by
  unfold term at h
  split at h
  · cases h
    exact ⟨_, _, rfl, .text _, join_singleton _ _⟩
  · rename_i ts
    split at h
    · rename_i value' ts' hsum
      cases h
      obtain ⟨used, ps, rfl, hused, hjoin⟩ := hinner
        (usesGlobal_append [leftParen] hglobal) hsum
      exact ⟨leftParen :: (used ++ [rightParen]), ps, by simp, .parens hused, hjoin⟩
    · cases h
  · obtain ⟨body, rfl, hbody, hlast⟩ := nameof_iff.1 h
    exact ⟨name "nameof" :: leftParen :: (body ++ [rightParen]), _, by simp, .nameof hbody hlast,
      join_singleton _ _⟩
  · rename_i first ts _
    obtain ⟨⟨p, us⟩, hpath, h⟩ := Option.bind_eq_some_iff.1 h
    obtain ⟨w, hw, heq⟩ := Option.bind_eq_some_iff.1 h
    cases heq
    exact .of_path hglobal hpath hw
  · cases h

theorem reads_of_sum : ∀ (n : Nat) {ts rest : List ConstantToken} {value : String},
    usesGlobal ts = false → sum lookup n ts = some (value, rest) →
      Reads lookup .sum ts value rest
  | 0, ts, rest, value, _, h => by cases h
  | n + 1, ts, rest, value, hglobal, h => by
    rw [sum_succ] at h
    obtain ⟨⟨first, us⟩, hfirst, hread⟩ := Option.bind_eq_some_iff.1 h
    obtain ⟨used, ps, rfl, hused, hjoin⟩ := reads_of_term (reads_of_sum n) hglobal hfirst
    have hrest := usesGlobal_append used hglobal
    change readMore lookup n first us = some (value, rest) at hread
    unfold readMore at hread
    split at hread
    · obtain ⟨⟨more, us⟩, hmore, heq⟩ := Option.map_eq_some_iff.1 hread
      cases heq
      obtain ⟨used', qs, rfl, hused', hjoin'⟩ := reads_of_sum n
        (usesGlobal_append [plus] hrest) hmore
      refine ⟨used ++ plus :: used', ps ++ qs, by simp, .plus hused hused', ?_⟩
      rw [join_append, hjoin, hjoin']
      rfl
    · cases hread
      exact ⟨used, ps, rfl, .last hused, hjoin⟩

/-- An expression has the value of the pieces it spells. -/
theorem Spells.value?_eq {expression : String} {ps : List Piece} (h : Spells expression ps) :
    value? lookup expression = join lookup ps := by
  obtain ⟨ts, hscan, hts⟩ := h
  have hsum : readPhrase lookup .sum ts.length (ts ++ []) = (join lookup ps).map (·, []) :=
    sum_derives hts [] ts.length (ends_nil .sum) (Nat.le_succ _)
  rw [readPhrase, List.append_nil] at hsum
  rw [value?, hscan]
  show (sum lookup (ts.length + 1) ts).bind _ = _
  rw [hsum]
  cases join lookup ps <;> rfl

/-- An expression without `global::` that has a value spells pieces that have it. -/
theorem value?_iff {expression value : String} (h : GlobalFree expression) :
    value? lookup expression = some value
      ↔ ∃ ps, Spells expression ps ∧ join lookup ps = some value := by
  constructor
  · intro hvalue
    obtain ⟨ts, hscan, hsum⟩ := Option.bind_eq_some_iff.1 hvalue
    obtain ⟨⟨w, rest⟩, hsum, hrest⟩ := Option.bind_eq_some_iff.1 hsum
    obtain ⟨used, ps, rfl, hused, hjoin⟩ := reads_of_sum _ (h ts hscan) hsum
    cases rest with
    | nil =>
      cases hrest
      exact ⟨ps, ⟨_, hscan, by rwa [List.append_nil]⟩, hjoin⟩
    | cons t rest => cases hrest
  · rintro ⟨ps, hspells, hjoin⟩
    rw [hspells.value?_eq, hjoin]

end Sum

end TaskWrappers.ConstantExpr
