import Mathlib.Data.List.DropRight
import TaskWrappers.Proofs.Path.Below

/-!
# The path above

The path above a path is what its text opens with, up to the last segment that means something
(`spelled`), so its parts are all but the last (`parent?_spec`). Only a path without parts or to the
root itself has none above it (`parts_of_parent?_eq_none`).
-/

namespace TaskWrappers.Path

open Text

variable {p q : Path} {cs : List Char} {segs outer : List (List Char)}

theorem dropIdle_eq (segs : List (List Char)) :
    dropIdle segs = segs.rdropWhile fun s => (part? s).isNone := rfl

theorem filterMap_dropIdle (segs : List (List Char)) :
    (dropIdle segs).filterMap part? = segs.filterMap part? := by
  induction segs using List.reverseRecOn with
  | nil => rfl
  | append_singleton segs s ih =>
    rw [dropIdle_eq, List.rdropWhile_concat]
    split
    · rename_i hidle
      rw [← dropIdle_eq, ih, List.filterMap_append, List.filterMap_cons_none (by simpa using hidle),
        List.filterMap_nil, List.append_nil]
    · rfl

/-- Whether a list of segments ends in one that means something, or is empty. -/
def EndsInPart (segs : List (List Char)) : Prop :=
  ∀ s ∈ segs.getLast?, part? s ≠ none

theorem endsInPart_dropIdle (segs : List (List Char)) : EndsInPart (dropIdle segs) := by
  intro s hs
  obtain ⟨hne, rfl⟩ := List.mem_getLast?_eq_getLast hs
  have hnot := List.rdropWhile_last_not (fun s => (part? s).isNone) segs hne
  exact fun hnone => hnot (Option.isNone_iff_eq_none.2 hnone)

/-- The text of a path that opens like another and goes on with some of its segments. -/
def spelled (first : Option Part) (segs : List (List Char)) : List Char :=
  ((first.map (·.text)).getD "").toList ++ ['/'].intercalate segs

theorem spelled_root (segs : List (List Char)) :
    spelled (some .root) segs = '/' :: ['/'].intercalate segs := by
  simp [spelled, Part.text]

theorem spelled_here (segs : List (List Char)) :
    spelled (some .here) segs = '.' :: ['/'].intercalate segs := by
  simp [spelled, Part.text]

theorem spelled_none (segs : List (List Char)) : spelled none segs = ['/'].intercalate segs := by
  simp [spelled]

theorem intercalate_prefix {sep : List Char} : ∀ {a b : List (List Char)}, a <+: b →
    sep.intercalate a <+: sep.intercalate b
  | [], _, _ => List.nil_prefix
  | [s], _, ⟨[], rfl⟩ => List.prefix_refl _
  | [s], _, ⟨t :: ts, rfl⟩ => by
    rw [List.singleton_append, List.intercalate_cons_cons, List.intercalate_singleton,
      List.append_assoc]
    exact List.prefix_append _ _
  | s :: t :: ts, _, ⟨more, rfl⟩ => by
    rw [List.cons_append, List.cons_append, List.intercalate_cons_cons, List.intercalate_cons_cons,
      List.prefix_append_right_inj]
    exact intercalate_prefix ⟨more, rfl⟩

theorem segments_intercalate (hne : segs ≠ []) (h : ∀ s ∈ segs, '/' ∉ s) :
    segments (['/'].intercalate segs) = segs := by
  rw [segments, split_eq_splitOnP]
  exact List.splitOn_intercalate '/' h hne

theorem spelled_opening (cs : List Char) :
    spelled (opening cs).1 (segments (opening cs).2) = cs := by
  rw [spelled, segments, intercalate_split]
  fun_cases opening cs <;> simp [Part.text]

theorem opening_spelled (hlead : outer <+: segments (opening cs).2) (hends : EndsInPart outer) :
    opening (spelled (opening cs).1 outer) = ((opening cs).1, ['/'].intercalate outer) := by
  have hbody : ['/'].intercalate outer <+: (opening cs).2 := by
    have h : ['/'].intercalate outer <+: ['/'].intercalate (segments (opening cs).2) :=
      intercalate_prefix hlead
    rwa [segments, intercalate_split] at h
  rcases opening_cases cs with
    ⟨body, -, hcs⟩ | ⟨body, -, ⟨more, hmore⟩, hcs⟩ | ⟨hcs, hroot, hdot, hhere⟩
  · rw [hcs, spelled_root]
    rfl
  · rw [hcs] at hlead ⊢
    rw [spelled_here]
    -- behind a dot that opens a path stands a separator, if anything
    rw [hmore] at hlead
    obtain ⟨rest, hrest⟩ := hlead
    match outer, hends with
    | [], _ => rfl
    | [s], hends =>
      cases hrest
      exact absurd rfl (hends [] rfl)
    | s :: t :: ts, _ =>
      cases hrest
      rfl
  · rw [hcs] at hlead hbody ⊢
    rw [spelled_none]
    refine opening_eq_none (fun hhead => hroot ?_) (fun hbare => ?_)
      fun hlead => hhere (hlead.trans hbody)
    · obtain ⟨rest, hrest⟩ := List.head?_eq_some_iff.1 hhead
      rw [hrest] at hbody
      obtain ⟨more, rfl⟩ := hbody
      rfl
    · have hne : outer ≠ [] := by
        rintro rfl
        cases hbare
      have hsegments := segments_intercalate hne fun s hs =>
        not_mem_of_mem_segments (hlead.subset hs)
      rw [hbare] at hsegments
      exact hends ['.'] (by rw [← hsegments]; rfl) rfl

theorem partsOf_spelled (hlead : outer <+: segments (opening cs).2) (hends : EndsInPart outer) :
    partsOf (spelled (opening cs).1 outer) = (opening cs).1.toList ++ outer.filterMap part? := by
  rw [partsOf, opening_spelled hlead hends]
  by_cases hne : outer = []
  · subst hne
    rfl
  · rw [segments_intercalate hne fun s hs => not_mem_of_mem_segments (hlead.subset hs)]

theorem spelled_prefix (hlead : outer <+: segments (opening cs).2) :
    spelled (opening cs).1 outer <+: cs := by
  conv => rhs; rw [← spelled_opening cs]
  rw [spelled, spelled, List.prefix_append_right_inj]
  exact intercalate_prefix hlead

theorem getLast?_segments_spelled (hne : outer ≠ []) (hlead : outer <+: segments (opening cs).2)
    (hends : EndsInPart outer) :
    (segments (spelled (opening cs).1 outer)).getLast? = outer.getLast? := by
  have hslash : ∀ s ∈ outer, '/' ∉ s := fun s hs => not_mem_of_mem_segments (hlead.subset hs)
  rcases opening_cases cs with ⟨body, -, hcs⟩ | ⟨body, -, ⟨more, hmore⟩, hcs⟩ | ⟨hcs, -⟩
  · rw [hcs, spelled_root]
    have hsegments : segments ('/' :: ['/'].intercalate outer) = [] :: outer :=
      congrArg ([] :: ·) (segments_intercalate hne hslash)
    rw [hsegments, List.getLast?_cons_of_ne_nil hne]
  · rw [hcs] at hlead ⊢
    rw [spelled_here]
    rw [hmore] at hlead
    obtain ⟨rest, hrest⟩ := hlead
    match outer, hends, hslash with
    | [s], hends, _ =>
      cases hrest
      exact absurd rfl (hends [] rfl)
    | s :: t :: ts, _, hslash =>
      cases hrest
      have hsegments : segments ('.' :: '/' :: ['/'].intercalate (t :: ts)) = ['.'] :: t :: ts :=
        (segments_append ['.'] _).trans (congrArg (['.'] :: ·)
          (segments_intercalate (List.cons_ne_nil t ts) fun s hs => hslash s (.tail _ hs)))
      exact (congrArg List.getLast? hsegments).trans (by simp)
  · rw [hcs, spelled_none, segments_intercalate hne hslash]

theorem toList_spelled (first : Option Part) (outer : List (List Char)) :
    ((first.map (·.text)).getD "" ++ String.ofList (['/'].intercalate outer)).toList
      = spelled first outer := by
  rw [String.toList_append, String.toList_ofList, spelled]

/-- The path above: all parts but the last, by the start of the text. If it has steps besides a
root, it does not end in a separator or a dot. -/
theorem parent?_spec (h : p.parent? = some q) :
    (∃ last, p.parts = q.parts ++ [last]) ∧ q.text.toList <+: p.text.toList ∧
      (q.steps = [] ∨ q.steps = [.root] ∨
        ∀ s ∈ (segments q.text.toList).getLast?, part? s ≠ none) := by
  have hparts := filterMap_dropIdle (segments (opening p.text.toList).2)
  have hlead : dropIdle (segments (opening p.text.toList).2)
      <+: segments (opening p.text.toList).2 := List.rdropWhile_prefix ..
  have hends := endsInPart_dropIdle (segments (opening p.text.toList).2)
  rw [parent?] at h
  dsimp only at h
  rw [steps, parts_eq, parts_eq, partsOf, ← hparts]
  generalize dropIdle (segments (opening p.text.toList).2) = kept at *
  split at h
  · split at h
    · rename_i hhere
      cases h
      rw [hhere]
      exact ⟨⟨.here, rfl⟩, List.nil_prefix, .inl rfl⟩
    · cases h
  · rename_i hne
    cases h
    obtain ⟨init, last, rfl⟩ := (List.eq_nil_or_concat' kept).resolve_left hne
    obtain ⟨part, hpart⟩ := Option.ne_none_iff_exists'.1 (hends last List.getLast?_concat)
    have hinit : dropIdle init <+: segments (opening p.text.toList).2 :=
      (List.rdropWhile_prefix ..).trans ((List.prefix_append init [last]).trans hlead)
    have hinitEnds := endsInPart_dropIdle init
    rw [List.dropLast_concat, toList_spelled, partsOf_spelled hinit hinitEnds, filterMap_dropIdle,
      List.filterMap_append, List.filterMap_cons_some hpart, List.filterMap_nil,
      ← List.append_assoc]
    refine ⟨⟨part, rfl⟩, spelled_prefix hinit, ?_⟩
    by_cases houter : dropIdle init = []
    · rw [← filterMap_dropIdle, houter, List.filterMap_nil, List.append_nil]
      rcases opening_cases p.text.toList with ⟨_, -, hcs⟩ | ⟨_, -, -, hcs⟩ | ⟨hcs, -⟩ <;> rw [hcs]
      · exact .inr (.inl rfl)
      · exact .inl rfl
      · exact .inl rfl
    · exact .inr (.inr (by rwa [getLast?_segments_spelled houter hinit hinitEnds]))

theorem steps_of_parent? (h : p.parent? = some q) :
    (∃ last, p.steps = q.steps ++ [last]) ∨ p.steps = [] := by
  obtain ⟨⟨last, hlast⟩, -⟩ := parent?_spec h
  by_cases hhere : last = .here
  · -- only the opening can be a dot, so nothing stands before it
    subst hhere
    obtain ⟨rest, hparts, hrest⟩ := exists_parts p
    rcases List.eq_nil_or_concat' rest with rfl | ⟨init, part, rfl⟩
    · refine .inr ?_
      rw [List.append_nil] at hparts
      rw [steps, hparts]
      cases hfirst : (opening p.text.toList).1 with
      | none => rfl
      | some first =>
        rw [hlast, hfirst, Option.toList_some, List.append_eq_singleton_iff] at hparts
        rcases hparts with ⟨-, h⟩ | ⟨-, h⟩ <;> cases h
        rfl
    · rw [hlast, ← List.append_assoc] at hparts
      have heq : Part.here = part := List.singleton_inj.1 (List.append_inj_right' hparts rfl)
      rcases hrest part (by simp) with rfl | ⟨_, rfl, -⟩ <;> cases heq
  · refine .inl ⟨last, ?_⟩
    rw [steps, hlast, List.filter_append, steps, List.filter_cons_of_pos (by simpa using hhere)]
    rfl

theorem parts_of_parent?_eq_none (h : p.parent? = none) : p.parts = [] ∨ p.parts = [.root] := by
  have hparts := filterMap_dropIdle (segments (opening p.text.toList).2)
  rw [parent?] at h
  dsimp only at h
  rw [parts_eq, partsOf, ← hparts]
  split at h
  · rename_i hnone
    rw [hnone]
    rcases opening_cases p.text.toList with ⟨body, -, hcs⟩ | ⟨body, -, -, hcs⟩ | ⟨hcs, -⟩
    · rw [hcs]
      exact .inr rfl
    · rw [hcs, if_pos rfl] at h
      cases h
    · rw [hcs]
      exact .inl rfl
  · cases h

end TaskWrappers.Path
