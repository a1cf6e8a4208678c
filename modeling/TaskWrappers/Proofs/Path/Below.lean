import TaskWrappers.Path
import TaskWrappers.Proofs.Text.Split

/-!
# Going down a path

Going down from a path by a name adds the name to its parts (`parts_join`), and so step by step for
the names of a whole way down (`parts_below`). Only the opening of a path can be a root or a dot;
behind it there are names, each of them one that a single step can have, and steps up
(`exists_parts`).
-/

namespace TaskWrappers.Path

open Text

/-- A name that one step down a path can have. -/
def IsName (name : String) : Prop := name ∉ ["", ".", ".."] ∧ '/' ∉ name.toList

instance (name : String) : Decidable (IsName name) := inferInstanceAs (Decidable (_ ∧ _))

/-- The path that leads on from `dir` by these names. -/
def below (dir : Path) (names : List String) : Path :=
  names.foldl (fun p name => p.join ⟨name⟩) dir

variable {p q base : Path} {name : String} {cs : List Char}

theorem part?_of_isName (h : IsName name) : part? name.toList = some (.name name) := by
  have hne : name ≠ "" ∧ name ≠ "." ∧ name ≠ ".." := by simpa [IsName] using h.1
  unfold part?
  split
  · exact absurd (String.toList_inj.1 ‹_›) hne.1
  · exact absurd (String.toList_inj.1 ‹_›) hne.2.1
  · exact absurd (String.toList_inj.1 ‹_›) hne.2.2
  · rw [String.ofList_toList]

theorem segments_of_isName (h : IsName name) : segments name.toList = [name.toList] :=
  split_of_not_mem h.2

theorem segments_append (cs rest : List Char) :
    segments (cs ++ '/' :: rest) = segments cs ++ segments rest :=
  split_append_cons rfl cs rest

theorem not_mem_of_mem_segments {s : List Char} (h : s ∈ segments cs) : '/' ∉ s :=
  fun hmem => absurd (of_mem_split h '/' hmem) (by decide)

theorem part?_cases {s : List Char} {part : Part} (hs : '/' ∉ s) (h : part? s = some part) :
    part = .up ∨ ∃ name, part = .name name ∧ IsName name := by
  unfold part? at h
  split at h
  · cases h
  · cases h
  · cases h
    exact .inl rfl
  · rename_i hempty hhere hup
    cases h
    refine .inr ⟨_, rfl, ?_, by rwa [String.toList_ofList]⟩
    intro hmem
    have hlist : s ∈ [[], ['.'], ['.', '.']] := by
      simpa [← String.toList_inj, String.toList_ofList] using hmem
    simp only [List.mem_cons, List.not_mem_nil, or_false] at hlist
    rcases hlist with rfl | rfl | rfl
    · exact hempty rfl
    · exact hhere rfl
    · exact hup rfl

/-- The parts that a text stands for. -/
def partsOf (cs : List Char) : List Part :=
  (opening cs).1.toList ++ (segments (opening cs).2).filterMap part?

theorem parts_eq (p : Path) : p.parts = partsOf p.text.toList := rfl

theorem opening_eq_none (hroot : cs.head? ≠ some '/') (hdot : cs ≠ ['.'])
    (hhere : ¬ ['.', '/'] <+: cs) : opening cs = (none, cs) := by
  unfold opening
  split
  · exact absurd rfl hroot
  · exact absurd rfl hdot
  · rename_i rest
    exact absurd (List.prefix_append ['.', '/'] rest) hhere
  · rfl

/-- A path opens with a root, with a dot that is followed by a separator if by anything, or with
neither. -/
theorem opening_cases (cs : List Char) :
    (∃ body, cs = '/' :: body ∧ opening cs = (some .root, body)) ∨
      (∃ body, cs = '.' :: body ∧ (∃ more, segments body = [] :: more) ∧
        opening cs = (some .here, body)) ∨
      (opening cs = (none, cs) ∧ cs.head? ≠ some '/' ∧ cs ≠ ['.'] ∧ ¬ ['.', '/'] <+: cs) := by
  by_cases hroot : cs.head? = some '/'
  · obtain ⟨body, rfl⟩ := List.head?_eq_some_iff.1 hroot
    exact .inl ⟨body, rfl, rfl⟩
  by_cases hdot : cs = ['.']
  · subst hdot
    exact .inr (.inl ⟨[], rfl, ⟨[], rfl⟩, rfl⟩)
  by_cases hhere : ['.', '/'] <+: cs
  · obtain ⟨rest, rfl⟩ := hhere
    exact .inr (.inl ⟨'/' :: rest, rfl, ⟨segments rest, rfl⟩, rfl⟩)
  · exact .inr (.inr ⟨opening_eq_none hroot hdot hhere, hroot, hdot, hhere⟩)

theorem opening_append (hne : cs ≠ []) (rest : List Char) :
    opening (cs ++ '/' :: rest) = ((opening cs).1, (opening cs).2 ++ '/' :: rest) := by
  fun_cases opening cs with
  | case1 cs => rfl
  | case2 => rfl
  | case3 cs => rfl
  | case4 cs hroot hdot hhere =>
    obtain ⟨c, tail, rfl⟩ := List.exists_cons_of_ne_nil hne
    refine opening_eq_none ?_ (by simp) ?_
    · rintro ⟨⟩
      exact hroot tail rfl
    · rintro ⟨more, h⟩
      cases tail with
      | nil =>
        cases h
        exact hdot rfl
      | cons d tail =>
        cases h
        exact hhere tail rfl

theorem name_notMem_opening (name : String) (cs : List Char) :
    .name name ∉ (opening cs).1.toList := by
  rcases opening_cases cs with ⟨_, -, hcs⟩ | ⟨_, -, -, hcs⟩ | ⟨hcs, -⟩ <;> simp [hcs]

/-- Behind the opening there are only names and steps up. -/
theorem exists_parts (p : Path) : ∃ rest, p.parts = (opening p.text.toList).1.toList ++ rest ∧
    ∀ part ∈ rest, part = .up ∨ ∃ name, part = .name name ∧ IsName name := by
  refine ⟨_, rfl, fun part hpart => ?_⟩
  obtain ⟨s, hs, hpart⟩ := List.mem_filterMap.1 hpart
  exact part?_cases (not_mem_of_mem_segments hs) hpart

theorem isName_of_mem_parts (h : .name name ∈ p.parts) : IsName name := by
  obtain ⟨rest, hparts, hrest⟩ := exists_parts p
  rw [hparts, List.mem_append] at h
  rcases h with h | h
  · exact absurd h (name_notMem_opening name _)
  · rcases hrest _ h with heq | ⟨_, heq, hname⟩ <;> cases heq
    exact hname

theorem subset_of_part? {s : List Char} (h : part? s = some (.name name)) : name.toList ⊆ s := by
  unfold part? at h
  split at h <;> cases h
  rw [String.toList_ofList]
  exact List.Subset.refl s

/-- A name is spelled in the path. -/
theorem subset_of_mem_parts (h : .name name ∈ p.parts) : name.toList ⊆ p.text.toList := by
  have hbody : (opening p.text.toList).2 ⊆ p.text.toList := by
    rcases opening_cases p.text.toList with ⟨body, htext, hcs⟩ | ⟨body, htext, -, hcs⟩ | ⟨hcs, -⟩
    · rw [hcs, htext]
      exact List.subset_cons_self _ _
    · rw [hcs, htext]
      exact List.subset_cons_self _ _
    · rw [hcs]
      exact List.Subset.refl _
  rw [parts_eq, partsOf, List.mem_append] at h
  rcases h with h | h
  · exact absurd h (name_notMem_opening name _)
  · obtain ⟨s, hs, hpart⟩ := List.mem_filterMap.1 h
    have hsegment : name.toList ⊆ (opening p.text.toList).2 :=
      List.Subset.trans (subset_of_part? hpart) (subset_of_mem_split hs)
    exact List.Subset.trans hsegment hbody

theorem partsOf_append (hne : cs ≠ []) (rest : List Char) :
    partsOf (cs ++ '/' :: rest) = partsOf cs ++ (segments rest).filterMap part? := by
  rw [partsOf, opening_append hne, segments_append, List.filterMap_append, ← List.append_assoc]
  rfl

/-- A name is joined to a path by a separator, which may be there already. -/
theorem toList_join (hbase : base.text ≠ "") (h : IsName name) :
    ∃ cs, (base.text.toList = cs ∨ base.text.toList = cs ++ ['/']) ∧
      (base.join ⟨name⟩).text.toList = cs ++ '/' :: name.toList := by
  have hrelative : isAbsolute ⟨name⟩ = false := by
    rw [isAbsolute, beq_eq_false_iff_ne]
    exact fun hhead => h.2 (List.mem_of_mem_head? hhead)
  have hempty : base.text.isEmpty = false := by simpa using hbase
  rw [join, hrelative, hempty, Bool.or_self, if_neg Bool.false_ne_true]
  split
  · rename_i hlast
    obtain ⟨cs, hcs⟩ := List.getLast?_eq_some_iff.1 (beq_iff_eq.1 hlast)
    exact ⟨cs, .inr hcs, by simp [hcs]⟩
  · exact ⟨base.text.toList, .inl rfl, by simp⟩

theorem join_text_ne (hbase : base.text ≠ "") (h : IsName name) : (base.join ⟨name⟩).text ≠ "" := by
  obtain ⟨cs, -, hjoin⟩ := toList_join hbase h
  intro hempty
  rw [hempty] at hjoin
  simp at hjoin

theorem mem_toList_join (hbase : base.text ≠ "") (h : IsName name) {c : Char}
    (hc : c ∈ (base.join ⟨name⟩).text.toList) :
    c ∈ base.text.toList ∨ c = '/' ∨ c ∈ name.toList := by
  obtain ⟨cs, hcs, hjoin⟩ := toList_join hbase h
  rw [hjoin, List.mem_append, List.mem_cons] at hc
  refine hc.imp_left fun hc => ?_
  rcases hcs with hcs | hcs <;> rw [hcs]
  · exact hc
  · exact List.mem_append_left _ hc

theorem parts_join (hbase : base.text ≠ "") (h : IsName name) :
    (base.join ⟨name⟩).parts = base.parts ++ [.name name] := by
  obtain ⟨cs, hcs, hjoin⟩ := toList_join hbase h
  have hname : (segments name.toList).filterMap part? = [.name name] := by
    rw [segments_of_isName h, List.filterMap_cons_some (part?_of_isName h), List.filterMap_nil]
  rw [parts_eq, parts_eq, hjoin]
  rcases hcs with hcs | hcs
  · have hne : cs ≠ [] := by
      rwa [← hcs, ne_eq, String.toList_eq_nil_iff]
    rw [partsOf_append hne, hname, hcs]
  · rw [hcs]
    by_cases hne : cs = []
    · subst hne
      exact congrArg (Part.root :: ·) hname
    · rw [partsOf_append hne, partsOf_append hne, hname]
      exact congrArg (· ++ _) (List.append_nil _).symm

theorem steps_join (hbase : base.text ≠ "") (h : IsName name) :
    (base.join ⟨name⟩).steps = base.steps ++ [.name name] := by
  rw [steps, parts_join hbase h, List.filter_append]
  rfl

theorem fileName?_join (hbase : base.text ≠ "") (h : IsName name) :
    (base.join ⟨name⟩).fileName? = some name := by
  rw [fileName?, parts_join hbase h, List.getLast?_concat]

theorem fileName?_of_isName (h : IsName name) : fileName? ⟨name⟩ = some name := by
  have hopening : opening name.toList = (none, name.toList) := by
    refine opening_eq_none (fun hhead => h.2 (List.mem_of_mem_head? hhead)) ?_ ?_
    · intro hdot
      obtain rfl : name = "." := String.toList_inj.1 hdot
      exact absurd h (by decide)
    · exact fun hhere => h.2 (hhere.subset (by simp))
  rw [fileName?, parts_eq, partsOf, hopening, segments_of_isName h,
    List.filterMap_cons_some (part?_of_isName h)]
  rfl

/-- The extension of a path is that of the name it ends in. -/
theorem extension?_join (hbase : base.text ≠ "") (h : IsName name) :
    (base.join ⟨name⟩).extension? = extension? ⟨name⟩ := by
  rw [extension?, extension?, fileName?_join hbase h, fileName?_of_isName h]

/-- An extension is what follows the last dot of a name, behind something. -/
theorem extension?_eq_some {extension : String} (h : IsName name) (hdot : '.' ∉ extension.toList) :
    extension? ⟨name⟩ = some extension ↔ ∃ stem, stem ≠ "" ∧ name = stem ++ "." ++ extension := by
  rw [extension?, fileName?_of_isName h, Option.bind_eq_bind, Option.bind_some]
  constructor
  · intro hsome
    obtain ⟨⟨before, after⟩, hcut, hsome⟩ := Option.bind_eq_some_iff.1 hsome
    dsimp only at hsome
    split at hsome
    · cases hsome
    · rename_i hne
      cases hsome
      refine ⟨.ofList before, by simpa [← String.toList_inj] using hne, ?_⟩
      rw [← String.toList_inj, append_of_cutLast? hcut]
      simp
  · rintro ⟨stem, hne, rfl⟩
    have hlist : (stem ++ "." ++ extension).toList = stem.toList ++ '.' :: extension.toList := by
      simp
    rw [hlist, cutLast?_append_cons hdot]
    simp [hne]

section Below

variable {names : List String} (hbase : base.text ≠ "") (hnames : ∀ name ∈ names, IsName name)

theorem below_cons : base.below (name :: names) = (base.join ⟨name⟩).below names := rfl

theorem below_concat : base.below (names ++ [name]) = (base.below names).join ⟨name⟩ :=
  List.foldl_append ..

include hbase hnames

theorem below_spec : (base.below names).text ≠ "" ∧
    (base.below names).parts = base.parts ++ names.map .name := by
  induction names generalizing base with
  | nil => exact ⟨hbase, (List.append_nil _).symm⟩
  | cons name names ih =>
    have hname := hnames name List.mem_cons_self
    obtain ⟨htext, hparts⟩ := ih (join_text_ne hbase hname)
      fun n hn => hnames n (List.mem_cons_of_mem name hn)
    refine ⟨htext, ?_⟩
    rw [below_cons, hparts, parts_join hbase hname, List.append_assoc]
    rfl

theorem mem_toList_below {c : Char} (hc : c ∈ (base.below names).text.toList) :
    c ∈ base.text.toList ∨ c = '/' ∨ ∃ name ∈ names, c ∈ name.toList := by
  induction names generalizing base with
  | nil => exact .inl hc
  | cons name names ih =>
    have hname := hnames name List.mem_cons_self
    have hrest := fun n hn => hnames n (List.mem_cons_of_mem name hn)
    rcases ih (join_text_ne hbase hname) hrest hc with hc | rfl | ⟨n, hn, hc⟩
    · rcases mem_toList_join hbase hname hc with hc | rfl | hc
      · exact .inl hc
      · exact .inr (.inl rfl)
      · exact .inr (.inr ⟨name, List.mem_cons_self, hc⟩)
    · exact .inr (.inl rfl)
    · exact .inr (.inr ⟨n, List.mem_cons_of_mem name hn, hc⟩)

theorem parts_below : (base.below names).parts = base.parts ++ names.map .name :=
  (below_spec hbase hnames).2

theorem steps_below : (base.below names).steps = base.steps ++ names.map .name := by
  rw [steps, parts_below hbase hnames, List.filter_append, steps, List.append_cancel_left_eq,
    List.filter_eq_self]
  intro part hpart
  obtain ⟨name, -, rfl⟩ := List.mem_map.1 hpart
  rfl

end Below

end TaskWrappers.Path
