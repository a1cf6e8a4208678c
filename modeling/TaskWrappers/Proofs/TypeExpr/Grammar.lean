import TaskWrappers.Proofs.TypeExpr.Tokens

/-!
# The grammar of types

What is a type, apart from how it is read: a keyword, a name or a tuple with marks behind it
(`TypeExpr.Derives`). A name does not open with a keyword. A derivation uses up the tokens of what
it derives, one for one (`TypeExpr.Derives.tokens_eq`), so nothing has two stretches of tokens; and
every well formed type can be derived (`TypeExpr.derives_tokens`).
-/

namespace TaskWrappers

open TypeToken

namespace TypeExpr

/-- What a stretch of tokens can be, with what it stands for. -/
inductive Phrase where
  | type (t : TypeExpr)
  /-- A type without marks. -/
  | primary (t : TypeExpr)
  /-- The segments of a name. -/
  | path (outer : List Segment) (last : Segment)
  | segment (s : Segment)
  | arg (a : TypeArg)
  /-- Arguments with a comma in front of each. -/
  | args (as : List TypeArg)
  | element (e : TupleElement)
  /-- Elements with a comma in front of each. -/
  | elements (es : List TupleElement)

/-- How tokens spell phrases. -/
inductive Derives : List TypeToken → Phrase → Prop where
  | primary {ts : List TypeToken} {t : TypeExpr} (h : Derives ts (.primary t)) :
      Derives ts (.type t)
  | nullable {ts : List TypeToken} {t : TypeExpr} (h : Derives ts (.type t)) :
      Derives (ts ++ [question]) (.type (.nullable t))
  | array {ts : List TypeToken} {t : TypeExpr} (h : Derives ts (.type t)) (commas : Nat) :
      Derives (ts ++ leftBracket :: (List.replicate commas comma ++ [rightBracket]))
        (.type (.array t commas))
  | keyword {w : String} (hword : w ∈ keywords) : Derives [name w] (.primary (.keyword w))
  | tuple {ts us vs : List TypeToken} {first second : TupleElement} {rest : List TupleElement}
      (hfirst : Derives ts (.element first)) (hsecond : Derives us (.element second))
      (hrest : Derives vs (.elements rest)) :
      Derives (leftParen :: (ts ++ comma :: (us ++ vs) ++ [rightParen]))
        (.primary (.tuple first second rest))
  | unqualified {ts : List TypeToken} {w : String} {outer : List Segment} {last : Segment}
      (hhead : ts.head? = some (name w)) (hword : w ∉ keywords)
      (h : Derives ts (.path outer last)) : Derives ts (.primary (.named none outer last))
  | qualified {ts : List TypeToken} {q : String} {outer : List Segment} {last : Segment}
      (hword : q ∉ keywords) (h : Derives ts (.path outer last)) :
      Derives (name q :: colons :: ts) (.primary (.named (some q) outer last))
  | last {ts : List TypeToken} {s : Segment} (h : Derives ts (.segment s)) :
      Derives ts (.path [] s)
  | dot {ts us : List TypeToken} {s last : Segment} {outer : List Segment}
      (hs : Derives ts (.segment s)) (h : Derives us (.path outer last)) :
      Derives (ts ++ dot :: us) (.path (s :: outer) last)
  | plain (w : String) : Derives [name w] (.segment (.plain w))
  | generic {ts us : List TypeToken} {a : TypeArg} {as : List TypeArg} (w : String)
      (ha : Derives ts (.arg a)) (has : Derives us (.args as)) :
      Derives (name w :: less :: (ts ++ us ++ [greater])) (.segment (.generic w a as))
  | omitted : Derives [] (.arg .omitted)
  | given {ts : List TypeToken} {t : TypeExpr} (h : Derives ts (.type t)) :
      Derives ts (.arg (.given t))
  | noArgs : Derives [] (.args [])
  | moreArgs {ts us : List TypeToken} {a : TypeArg} {as : List TypeArg} (ha : Derives ts (.arg a))
      (has : Derives us (.args as)) : Derives (comma :: (ts ++ us)) (.args (a :: as))
  | unnamed {ts : List TypeToken} {t : TypeExpr} (h : Derives ts (.type t)) :
      Derives ts (.element ⟨t, none⟩)
  | named {ts : List TypeToken} {t : TypeExpr} (h : Derives ts (.type t)) (w : String) :
      Derives (ts ++ [name w]) (.element ⟨t, some w⟩)
  | noElements : Derives [] (.elements [])
  | moreElements {ts us : List TypeToken} {e : TupleElement} {es : List TupleElement}
      (he : Derives ts (.element e)) (hes : Derives us (.elements es)) :
      Derives (comma :: (ts ++ us)) (.elements (e :: es))

/-- The tokens of what a phrase stands for. -/
def Phrase.tokens : Phrase → List TypeToken
  | type t | primary t => t.tokens
  | path outer last => Segment.dottedTokens outer ++ last.tokens
  | segment s => s.tokens
  | arg a => a.tokens
  | args as => TypeArg.restTokens as
  | element e => e.tokens
  | elements es => TupleElement.restTokens es

theorem Derives.tokens_eq {ts : List TypeToken} {p : Phrase} (h : Derives ts p) :
    ts = p.tokens := by
  induction h with
  | primary _ ih => exact ih
  | nullable _ ih => rw [Phrase.tokens, TypeExpr.tokens, ih, Phrase.tokens]
  | array _ commas ih => rw [Phrase.tokens, TypeExpr.tokens, ih, Phrase.tokens]
  | keyword _ => rw [Phrase.tokens, TypeExpr.tokens]
  | tuple _ _ _ hfirst hsecond hrest =>
    rw [Phrase.tokens, TypeExpr.tokens, hfirst, hsecond, hrest]
    rfl
  | unqualified _ _ _ ih =>
    rw [Phrase.tokens, TypeExpr.tokens, ih]
    rfl
  | qualified _ _ ih =>
    rw [Phrase.tokens, TypeExpr.tokens, ih]
    rfl
  | last _ ih => rw [Phrase.tokens, Segment.dottedTokens, ih, Phrase.tokens, List.nil_append]
  | dot _ _ hs ih =>
    rw [Phrase.tokens, Segment.dottedTokens, hs, ih, Phrase.tokens, Phrase.tokens,
      List.append_assoc, List.cons_append]
  | plain w => rw [Phrase.tokens, Segment.tokens]
  | generic w _ _ ha has =>
    rw [Phrase.tokens, Segment.tokens, ha, has, Phrase.tokens, Phrase.tokens]
  | omitted => rw [Phrase.tokens, TypeArg.tokens]
  | given _ ih => rw [Phrase.tokens, TypeArg.tokens, ih, Phrase.tokens]
  | noArgs => rw [Phrase.tokens, TypeArg.restTokens]
  | moreArgs _ _ ha has =>
    rw [Phrase.tokens, TypeArg.restTokens, ha, has, Phrase.tokens, Phrase.tokens]
  | unnamed _ ih => rw [Phrase.tokens, TupleElement.tokens, ih, Phrase.tokens]
  | named _ w ih => rw [Phrase.tokens, TupleElement.tokens, ih, Phrase.tokens]
  | noElements => rw [Phrase.tokens, TupleElement.restTokens]
  | moreElements _ _ he hes =>
    rw [Phrase.tokens, TupleElement.restTokens, he, hes, Phrase.tokens, Phrase.tokens]

/-- A name opens with its first word. -/
theorem Derives.head?_path {ts : List TypeToken} {outer : List Segment} {last : Segment}
    (h : Derives ts (.path outer last)) : ts.head? = some (name (firstWord none outer last)) := by
  have hsegment {us : List TypeToken} {s : Segment} (hs : Derives us (.segment s)) :
      ∃ vs, us = name s.name :: vs := by
    cases hs with
    | plain w => exact ⟨[], rfl⟩
    | generic w _ _ => exact ⟨_, rfl⟩
  cases h with
  | last hs =>
    obtain ⟨vs, rfl⟩ := hsegment hs
    rfl
  | dot hs _ =>
    obtain ⟨vs, rfl⟩ := hsegment hs
    rfl

end TypeExpr

open TypeExpr (Derives)

mutual

theorem TypeExpr.derives_tokens : ∀ t : TypeExpr, t.WellFormed → Derives t.tokens (.type t)
  | .keyword w, hw => by
    rw [TypeExpr.WellFormed] at hw
    rw [TypeExpr.tokens]
    exact .primary (.keyword hw)
  | .named qualifier outer last, hw => by
    rw [TypeExpr.WellFormed] at hw
    obtain ⟨-, ho, hl, hfirst⟩ := hw
    have hpath := Segment.derives_dottedTokens outer ho (Segment.derives_tokens last hl)
    cases qualifier with
    | none =>
      rw [TypeExpr.tokens]
      exact .primary (.unqualified hpath.head?_path hfirst hpath)
    | some q =>
      rw [TypeExpr.tokens]
      exact .primary (.qualified hfirst hpath)
  | .nullable inner, hw => by
    rw [TypeExpr.WellFormed] at hw
    rw [TypeExpr.tokens]
    exact .nullable (TypeExpr.derives_tokens inner hw)
  | .array element commas, hw => by
    rw [TypeExpr.WellFormed] at hw
    rw [TypeExpr.tokens]
    exact .array (TypeExpr.derives_tokens element hw) commas
  | .tuple first second rest, hw => by
    rw [TypeExpr.WellFormed] at hw
    obtain ⟨hf, hs, hr⟩ := hw
    rw [TypeExpr.tokens]
    exact .primary (.tuple (TupleElement.derives_tokens first hf)
      (TupleElement.derives_tokens second hs) (TupleElement.derives_restTokens rest hr))

theorem Segment.derives_tokens : ∀ s : Segment, s.WellFormed → Derives s.tokens (.segment s)
  | .plain w, _ => by
    rw [Segment.tokens]
    exact .plain w
  | .generic w first rest, hw => by
    rw [Segment.WellFormed] at hw
    obtain ⟨-, hf, hr⟩ := hw
    rw [Segment.tokens]
    exact .generic w (TypeArg.derives_tokens first hf) (TypeArg.derives_restTokens rest hr)

theorem Segment.derives_dottedTokens {last : Segment} : ∀ outer : List Segment,
    Segment.AllWellFormed outer → Derives last.tokens (.segment last) →
      Derives (Segment.dottedTokens outer ++ last.tokens) (.path outer last)
  | [], _, hl => by
    rw [Segment.dottedTokens]
    exact .last hl
  | s :: ss, ho, hl => by
    rw [Segment.AllWellFormed] at ho
    rw [Segment.dottedTokens, List.append_assoc, List.cons_append]
    exact .dot (Segment.derives_tokens s ho.1) (Segment.derives_dottedTokens ss ho.2 hl)

theorem TypeArg.derives_tokens : ∀ a : TypeArg, a.WellFormed → Derives a.tokens (.arg a)
  | .omitted, _ => by
    rw [TypeArg.tokens]
    exact .omitted
  | .given t, hw => by
    rw [TypeArg.WellFormed] at hw
    rw [TypeArg.tokens]
    exact .given (TypeExpr.derives_tokens t hw)

theorem TypeArg.derives_restTokens : ∀ as : List TypeArg, TypeArg.AllWellFormed as →
    Derives (TypeArg.restTokens as) (.args as)
  | [], _ => by
    rw [TypeArg.restTokens]
    exact .noArgs
  | a :: as, hw => by
    rw [TypeArg.AllWellFormed] at hw
    rw [TypeArg.restTokens]
    exact .moreArgs (TypeArg.derives_tokens a hw.1) (TypeArg.derives_restTokens as hw.2)

theorem TupleElement.derives_tokens : ∀ e : TupleElement, e.WellFormed →
    Derives e.tokens (.element e)
  | ⟨t, none⟩, hw => by
    rw [TupleElement.WellFormed] at hw
    rw [TupleElement.tokens]
    exact .unnamed (TypeExpr.derives_tokens t hw.1)
  | ⟨t, some w⟩, hw => by
    rw [TupleElement.WellFormed] at hw
    rw [TupleElement.tokens]
    exact .named (TypeExpr.derives_tokens t hw.1) w

theorem TupleElement.derives_restTokens : ∀ es : List TupleElement, TupleElement.AllWellFormed es →
    Derives (TupleElement.restTokens es) (.elements es)
  | [], _ => by
    rw [TupleElement.restTokens]
    exact .noElements
  | e :: es, hw => by
    rw [TupleElement.AllWellFormed] at hw
    rw [TupleElement.restTokens]
    exact .moreElements (TupleElement.derives_tokens e hw.1)
      (TupleElement.derives_restTokens es hw.2)

end

end TaskWrappers
