import VariantClasses.Proofs.Attribute.Runs
import VariantClasses.Proofs.Scan.Places

/-! # Runs and their attributes

Runs are found by one scan and taken apart by another, which asks for no boundary. The two
agree: the attributes that a run was read from are the pieces that the second scan makes of
it, a run goes on as far as it can, and two neighbouring attributes behind a boundary stand
in a run, where they are taken apart, unless they are written inside of a value of it
(`runs_cut_alike`).
-/

namespace VariantClasses

open Text

/-! ## Ends of attributes -/

theorem Value.exists_written_eq_concat (value : Value) :
    ∃ front c, value.written = front ++ [c] ∧ isBlank c = false := by
  cases value with
  | double body => exact ⟨'"' :: body, '"', rfl, by decide⟩
  | single body => exact ⟨'\'' :: body, '\'', rfl, by decide⟩
  | braced body => exact ⟨'\x7b' :: body, '\x7d', rfl, by decide⟩

/-- An attribute does not end in a blank. -/
theorem Attribute.exists_written_eq_concat (attr : Attribute) :
    ∃ front c, attr.written = front ++ [c] ∧ isBlank c = false := by
  obtain ⟨front, c, hvalue, hc⟩ := attr.value.exists_written_eq_concat
  refine ⟨attr.name ++ (attr.chain.elim [] (':' :: ·) ++ '=' :: front), c, ?_, hc⟩
  simp [written, hvalue]

/-- A text ends in a blank. -/
def EndsBlank (text : Text) : Prop :=
  ∃ c ∈ text.getLast?, isBlank c = true

theorem not_endsBlank_concat {front : Text} {c : Char} (hc : isBlank c = false) :
    ¬EndsBlank (front ++ [c]) := by
  rintro ⟨d, hd, hblank⟩
  rw [List.getLast?_concat, Option.mem_some] at hd
  rw [← hd, hc] at hblank
  cases hblank

theorem EndsBlank.of_append {front text : Text} (h : EndsBlank (front ++ text)) (hne : text ≠ []) :
    EndsBlank text := by
  obtain ⟨c, hc, hblank⟩ := h
  rw [List.getLast?_append, Option.or_of_isSome (by simpa using hne)] at hc
  exact ⟨c, hc, hblank⟩

theorem not_endsBlank_written (attr : Attribute) : ¬EndsBlank attr.written := by
  obtain ⟨front, c, hwritten, hc⟩ := attr.exists_written_eq_concat
  rw [hwritten]
  exact not_endsBlank_concat hc

/-! ## Places in a run -/

/-- A place behind the start of attributes lies behind the start of one of them, with the
blanks before it. -/
theorem exists_of_prefix_followersWritten {attrs : List (Text × Attribute)} {place : Text}
    (h : place <+: followersWritten attrs) (hne : place ≠ []) :
    ∃ front x back inner, attrs = front ++ x :: back ∧ place = followersWritten front ++ inner ∧
      inner ≠ [] ∧ inner <+: x.1 ++ x.2.written := by
  induction attrs generalizing place with
  | nil => exact absurd (List.prefix_nil.mp h) hne
  | cons x attrs ih =>
    rw [followersWritten_cons] at h
    rcases prefix_append_cases h with hinner | ⟨rest, hrest, rfl, hprefix⟩
    · exact ⟨[], x, attrs, place, rfl, rfl, hne, hinner⟩
    · obtain ⟨front, y, back, inner, rfl, rfl, hinner⟩ := ih hprefix hrest
      refine ⟨x :: front, y, back, inner, rfl, ?_, hinner⟩
      rw [followersWritten_cons, List.append_assoc _ _ inner]

theorem flatMap_pieceWritten_followersPieces (names : List Text)
    (followers : List (Text × Attribute)) :
    (followersPieces followers).flatMap (attributeReader names).pieceWritten =
      followersWritten followers := by
  induction followers with
  | nil => rfl
  | cons follower followers ih =>
    rw [followersPieces, List.flatMap_cons, List.flatMap_append, ← followersPieces, ih,
      followersWritten_cons, List.flatMap_append, Reader.flatMap_pieceWritten_other,
      List.flatMap_singleton]
    rfl

section Places

variable {names : List Text} (hnames : ∀ name ∈ names, isAttributeName name = true)

include hnames

/-- A text starts with at most one attribute of the names. -/
theorem eq_of_written_append_eq {attr other : Attribute} (hattr : attr.IsPlainOf names)
    (hother : other.IsPlainOf names) {rest behind : Text}
    (h : attr.written ++ rest = other.written ++ behind) : attr = other := by
  have hread : attributeOf? names (attr.written ++ rest) = some (attr, rest) :=
    (attributeOf?_eq_some_iff hnames).mpr ⟨hattr, rfl⟩
  rw [(attributeOf?_eq_some_iff hnames).mpr ⟨hother, h⟩] at hread
  exact (Prod.mk.inj (Option.some.inj hread)).1.symm

/-- A place in an attribute behind a blank lies in its value. -/
theorem isInside_value_of_endsBlank {attr : Attribute} (hattr : attr.IsPlainOf names)
    {place : Text} (h : place <+: attr.written) (hne : place ≠ []) (hblank : EndsBlank place) :
    ∃ inside, place = attr.name ++ '=' :: inside ∧ IsInside inside attr.value.written := by
  have hwritten : attr.written = attr.name ++ ('=' :: attr.value.written) := by
    rw [Attribute.written, hattr.2.1, Option.elim_none, List.nil_append]
  rw [hwritten] at h
  rcases prefix_append_cases h with hname | ⟨rest, hrest, rfl, hprefix⟩
  · obtain ⟨c, hc, hcblank⟩ := hblank
    have hmem : c ∈ attr.name := hname.subset (List.mem_of_getLast? hc)
    obtain ⟨-, -, -, hplain⟩ := exists_eq_cons_of_isAttributeName (hnames _ hattr.1)
    rw [not_blank_of_continuesName (hplain c hmem)] at hcblank
    cases hcblank
  · obtain ⟨inside, rfl, hinside⟩ := (List.prefix_cons_iff.mp hprefix).resolve_left hrest
    have hrestBlank := hblank.of_append hrest
    refine ⟨inside, rfl, ?_, hinside, ?_⟩
    · rintro rfl
      have hmark : ¬EndsBlank ([] ++ ['=']) := not_endsBlank_concat (by decide)
      exact hmark hrestBlank
    · rintro rfl
      apply not_endsBlank_written attr
      rwa [hwritten]

/-- An attribute of a run is found behind the blanks before it. -/
theorem findsAt_of_attrs_eq {run : Run} (hrun : run.IsOf names)
    (hlead : ∀ c ∈ run.lead, isBlank c = true) {front back : List (Text × Attribute)}
    {x : Text × Attribute} (h : (run.lead, run.first) :: run.more = front ++ x :: back) :
    (attributeReader names).FindsAt run.written (followersWritten front ++ x.1) x.2 := by
  refine ⟨followersPieces front ++ x.1.map .other, followersPieces back, ?_, ?_⟩
  · rw [attributeReader_cut_run hnames hrun hlead, Run.pieces, h]
    simp [followersPieces]
  · rw [List.flatMap_append, flatMap_pieceWritten_followersPieces,
      Reader.flatMap_pieceWritten_other]

/-- An attribute that stands in a run behind a blank is an attribute of the run, or it is
written inside of a value. -/
theorem findsAt_or_isInside_value {run : Run} (hrun : run.IsOf names)
    (hlead : ∀ c ∈ run.lead, isBlank c = true) {place after rest : Text} {attr : Attribute}
    (hattr : attr.IsPlainOf names) (hplace : place <+: run.written) (hblank : EndsBlank place)
    (htext : run.written ++ after = place ++ (attr.written ++ rest)) :
    ∃ start other, (attributeReader names).FindsAt run.written start other ∧
      ((start = place ∧ other = attr) ∨
        ∃ inside, place = start ++ (other.name ++ '=' :: inside) ∧
          IsInside inside other.value.written) := by
  have hne : place ≠ [] := by
    rintro rfl
    obtain ⟨c, hc, -⟩ := hblank
    cases hc
  rw [Run.written_eq] at hplace
  obtain ⟨front, x, back, inner, hattrs, rfl, hinner, hprefix⟩ :=
    exists_of_prefix_followersWritten hplace hne
  have hfinds := findsAt_of_attrs_eq hnames hrun hlead hattrs
  have hx := hrun.blanks_and_plain hlead x (hattrs ▸ List.mem_append_right _ List.mem_cons_self)
  refine ⟨_, x.2, hfinds, ?_⟩
  have hinnerBlank := hblank.of_append hinner
  rw [Run.written_eq, hattrs] at htext
  rcases prefix_append_cases hprefix with ⟨blanks, hblanks⟩ | ⟨tail, htail, rfl, hwritten⟩
  · -- Behind only some of the blanks stands another, and no attribute starts with one.
    have htail : blanks ++ (x.2.written ++ (followersWritten back ++ after)) =
        attr.written ++ rest := by
      have hwritten : followersWritten (front ++ x :: back) = (followersWritten front ++ inner) ++
          (blanks ++ (x.2.written ++ followersWritten back)) := by
        simp [followersWritten, ← hblanks]
      rw [hwritten, List.append_assoc] at htext
      simpa using List.append_cancel_left htext
    cases blanks with
    | nil =>
      rw [← hblanks, List.append_nil]
      exact .inl ⟨rfl, eq_of_written_append_eq hnames hx.2 hattr htail⟩
    | cons d blanks =>
      obtain ⟨c, behind, hattrWritten, hc⟩ := not_blank_head_of_isPlainOf hnames hattr
      have hd := hx.1 d (hblanks ▸ List.mem_append_right _ List.mem_cons_self)
      rw [hattrWritten] at htail
      rw [(List.cons.inj htail).1, hc] at hd
      cases hd
  · right
    obtain ⟨inside, rfl, hinside⟩ :=
      isInside_value_of_endsBlank hnames hx.2 hwritten htail (hinnerBlank.of_append htail)
    exact ⟨inside, by rw [List.append_assoc], hinside⟩

end Places

/-- The merged names are the name itself and, for the two names that are used for classes, the
other of them. -/
theorem AttributeName.mergedNames_eq (name : AttributeName) :
    name.mergedNames = name.text ::
      if name.text = "class".toList then ["className".toList]
      else if name.text = "className".toList then ["class".toList] else [] := by
  have hclass : AttributeName.class_.text = "class".toList := rfl
  have hclassName : AttributeName.className.text = "className".toList := rfl
  rw [mergedNames, aliasOf?, hclass, hclassName]
  split
  next => rfl
  next => split <;> rfl

/-- The scan for runs and the scan for attributes cut a text alike. A run is two or more
attributes of the name or its alias behind a boundary, as many as there are, and the second scan
takes it apart to the attributes that it was read from, whatever is written inside of its values.
Two neighbouring attributes behind a boundary stand in a run: the first is an attribute of the run,
or it is written inside of a value of an earlier one. -/
theorem runs_cut_alike (name : AttributeName) (text : Text) :
    let names := name.text ::
      if name.text = "class".toList then ["className".toList]
      else if name.text = "className".toList then ["class".toList] else []
    (∀ before run, (runReader names).FindsAt text before run →
      IsBoundary before.isEmpty run.lead ∧ run.IsOf names ∧
      (attributeReader names).cut true run.written = run.pieces ∧
      ∃ after, text = before ++ (run.written ++ after) ∧
        ∀ follower rest, Follows names follower →
          after ≠ (follower.1 ++ follower.2.written) ++ rest) ∧
    ∀ (before lead : Text) (first : Attribute) (second : Text × Attribute) (after : Text),
      text = before ++ (lead ++ (first.written ++ (followersWritten [second] ++ after))) →
      IsBoundary before.isEmpty lead → first.IsPlainOf names → Follows names second →
      ∃ start run, (runReader names).FindsAt text start run ∧
        ∃ place attr, (attributeReader names).FindsAt run.written place attr ∧
          ((attr = first ∧ start ++ place = before ++ lead) ∨
            ∃ inside, IsInside inside attr.value.written ∧
              start ++ (place ++ (attr.name ++ '=' :: inside)) = before ++ lead) := by
  intro names
  have hmerged : name.mergedNames = names := name.mergedNames_eq
  have hnames : ∀ other ∈ names, isAttributeName other = true := hmerged ▸ name.mergedNames_plain
  constructor
  · intro before run hfinds
    obtain ⟨after, htext, hread⟩ := hfinds.exists_read
    obtain ⟨hlead, hrun, hnone, -⟩ := (runReader_read?_eq_some_iff hnames).mp hread
    refine ⟨hlead, hrun, attributeReader_cut_run hnames hrun hlead.blanks, after, htext, ?_⟩
    rintro follower rest hfollows rfl
    rw [(follower?_eq_some_iff hnames).mpr ⟨hfollows, rfl⟩] at hnone
    cases hnone
  · rintro before lead first second after rfl hlead hfirst hsecond
    obtain ⟨more, rest, hread⟩ := exists_runReader_read? hnames hlead hfirst hsecond after
    rcases Reader.exists_findsAt hread with hfinds | ⟨start, run, place, hfinds, rfl, hplace⟩
    · obtain ⟨-, hrun, -⟩ := (runReader_read?_eq_some_iff hnames).mp hread
      have hattrs : (lead, first) :: more = [] ++ (lead, first) :: more := rfl
      exact ⟨before, _, hfinds, lead, first, findsAt_of_attrs_eq hnames hrun hlead.blanks hattrs,
        .inl ⟨rfl, rfl⟩⟩
    · obtain ⟨behind, htext, hstart⟩ := hfinds.exists_read
      obtain ⟨hrunLead, hrun, -⟩ := (runReader_read?_eq_some_iff hnames).mp hstart
      obtain ⟨c, hc, rfl⟩ := hlead.resolve_left fun h => by simp [hplace.ne_nil] at h
      rw [List.append_assoc] at htext
      have hrest : run.written ++ behind =
          place ++ c :: (first.written ++ (followersWritten [second] ++ after)) :=
        (List.append_cancel_left htext).symm
      -- The blank before the first attribute is still in the earlier run.
      obtain ⟨inner, attr, hattr, hcases⟩ :=
        findsAt_or_isInside_value hnames hrun hrunLead.blanks hfirst
          (hplace.concat_prefix hrest) ⟨c, by simp, hc⟩ (hrest.trans (List.append_cons place c _))
      refine ⟨start, run, hfinds, inner, attr, hattr, ?_⟩
      rcases hcases with ⟨rfl, rfl⟩ | ⟨inside, hinside, hvalue⟩
      · exact .inl ⟨rfl, by simp⟩
      · exact .inr ⟨inside, hvalue, by rw [← hinside]; simp⟩

/-- A run of both names holds what could be another run, in a value of its second attribute. -/
theorem runs_cut_alike_within_value :
    let class_ := "class".toList
    let names := [class_, "className".toList]
    let value := " f(' class=\"b\" class='c'') ".toList
    let run : Run := ⟨[' '], ⟨class_, none, .double ['a']⟩,
      [([' '], ⟨"className".toList, none, .braced value⟩)]⟩
    let text := "<p".toList ++ (run.written ++ ['>'])
    let first : Attribute := ⟨class_, none, .double ['b']⟩
    let second : Attribute := ⟨class_, none, .single ['c']⟩
    let before := "<p class=\"a\" className=\x7b f('".toList
    (runReader names).FindsAt text "<p".toList run ∧
      (attributeReader names).cut true run.written = run.pieces ∧
      text = before ++ ([' '] ++ (first.written ++
        (followersWritten [([' '], second)] ++ "') \x7d>".toList))) ∧
      ∃ start other place attr, (runReader names).FindsAt text start other ∧
        (attributeReader names).FindsAt other.written place attr ∧ attr ≠ first ∧
        ∃ inside, IsInside inside attr.value.written ∧
          start ++ (place ++ (attr.name ++ '=' :: inside)) = before ++ [' '] := by
  intro class_ names value run text first second before
  have hcut : (runReader names).cut true text =
      [.other '<', .other 'p', .found run, .other '>'] := by decide +kernel
  have hfinds : (runReader names).FindsAt text "<p".toList run :=
    ⟨[.other '<', .other 'p'], _, hcut, rfl⟩
  have htext : text = before ++ ([' '] ++ (first.written ++
      (followersWritten [([' '], second)] ++ "') \x7d>".toList))) := by decide +kernel
  have hfirst : first.IsPlainOf names := ⟨by decide, rfl, (by decide : '"' ∉ ['b'])⟩
  have hblanks : ∀ c ∈ [' '], isBlank c = true := by simp; decide
  have hsecond : Follows names ([' '], second) :=
    ⟨List.cons_ne_nil _ _, hblanks, by decide, rfl, (by decide : '\'' ∉ ['c'])⟩
  obtain ⟨hruns, hpairs⟩ := runs_cut_alike .class_ text
  have hpieces : (attributeReader names).cut true run.written = run.pieces :=
    (hruns _ run hfinds).2.2.1
  obtain ⟨start, other, hother, place, attr, hattr, hplace⟩ :=
    hpairs before [' '] first ([' '], second) _ htext (.inr ⟨' ', rfl, rfl⟩) hfirst hsecond
  refine ⟨hfinds, hpieces, htext, start, other, place, attr, hother, hattr, ?_⟩
  -- The text holds one run, and neither of its attributes is the first of the pair.
  have hne : attr ≠ first := by
    have hmem : Piece.found other ∈ (runReader names).cut true text := hother.found_mem_cut
    obtain rfl : other = run := by simpa [hcut] using hmem
    have hmem : Piece.found attr ∈ (attributeReader names).cut true run.written :=
      hattr.found_mem_cut
    rintro rfl
    revert hmem
    decide +kernel
  exact ⟨hne, (hplace.resolve_left fun h => hne h.1)⟩

end VariantClasses
