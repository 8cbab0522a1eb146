import VariantClasses.Merge
import VariantClasses.Proofs.Attribute.Reading

/-! # Runs that read back

Reading a run accepts exactly two or more plain attributes of the names, as they are
written, when no further one follows (`runReader_read?_eq_some_iff`). So a scan finds a
run in a text exactly when two such attributes stand next to each other behind a
boundary (`runReader_findAll_eq_nil_iff`).
-/

namespace VariantClasses

/-! ## Attributes of some names -/

/-- A plain attribute with one of the names. -/
def Attribute.IsPlainOf (names : List Text) (attr : Attribute) : Prop :=
  attr.name ∈ names ∧ Form.plain.Admits attr.chain attr.value

/-- An attribute of the names behind blanks, as it follows another. -/
structure Follows (names : List Text) (follower : Text × Attribute) : Prop where
  separated : follower.1 ≠ []
  blanks : ∀ c ∈ follower.1, isBlank c = true
  attr : follower.2.IsPlainOf names

/-- Two or more attributes of the names. -/
structure Run.IsOf (names : List Text) (run : Run) : Prop where
  first : run.first.IsPlainOf names
  more_ne_nil : run.more ≠ []
  more : ∀ follower ∈ run.more, Follows names follower

theorem Run.IsOf.blanks_and_plain {names : List Text} {run : Run} (h : run.IsOf names)
    (hlead : ∀ c ∈ run.lead, isBlank c = true) : ∀ x ∈ (run.lead, run.first) :: run.more,
      (∀ c ∈ x.1, isBlank c = true) ∧ x.2.IsPlainOf names := by
  intro x hx
  rcases List.mem_cons.mp hx with rfl | hx
  · exact ⟨hlead, h.first⟩
  · exact ⟨(h.more x hx).blanks, (h.more x hx).attr⟩

def Run.attrs (run : Run) : List Attribute :=
  run.first :: run.more.map Prod.snd

/-- Two neighbouring attributes of the names stand in the text, behind a boundary. -/
def HoldsRun (names : List Text) (text : Text) : Prop :=
  ∃ (before lead : Text) (first : Attribute) (second : Text × Attribute) (after : Text),
    text = before ++ (lead ++ (first.written ++ (followersWritten [second] ++ after))) ∧
      IsBoundary before.isEmpty lead ∧ first.IsPlainOf names ∧ Follows names second

theorem followersWritten_cons (follower : Text × Attribute) (more : List (Text × Attribute)) :
    followersWritten (follower :: more) =
      (follower.1 ++ follower.2.written) ++ followersWritten more :=
  rfl

/-- Blanks are pieces one by one, and each attribute behind them is one piece. -/
def followersPieces (followers : List (Text × Attribute)) : List (Piece Attribute) :=
  followers.flatMap fun (blanks, attr) => blanks.map .other ++ [.found attr]

def Run.pieces (run : Run) : List (Piece Attribute) :=
  followersPieces ((run.lead, run.first) :: run.more)

theorem Run.written_eq (run : Run) :
    run.written = followersWritten ((run.lead, run.first) :: run.more) := by
  simp [written, followersWritten]

theorem filterMap_found?_followersPieces (followers : List (Text × Attribute)) :
    (followersPieces followers).filterMap Piece.found? = followers.map Prod.snd := by
  induction followers with
  | nil => rfl
  | cons follower followers ih =>
    rw [followersPieces, List.flatMap_cons, List.filterMap_append, List.filterMap_append,
      Piece.filterMap_found?_other, List.nil_append]
    exact congrArg (follower.2 :: ·) ih

theorem AttributeName.mergedNames_plain (name : AttributeName) :
    ∀ text ∈ name.mergedNames, isAttributeName text = true := by
  intro text h
  rcases List.mem_cons.mp h with rfl | hother
  · exact name.plain
  · obtain ⟨other, -, rfl⟩ := Option.map_eq_some_iff.mp (Option.mem_toList.mp hother)
    exact other.plain

section Reading

variable {names : List Text} (hnames : ∀ name ∈ names, isAttributeName name = true)

include hnames

/-- Reading accepts the attributes of all names: no text starts with those of two. -/
theorem attributeOf?_eq_some_iff {text rest : Text} {attr : Attribute} :
    attributeOf? names text = some (attr, rest) ↔
      attr.IsPlainOf names ∧ text = attr.written ++ rest := by
  constructor
  · intro h
    obtain ⟨name, hname, hread⟩ := List.exists_of_findSome?_eq_some h
    obtain ⟨⟨rfl, hform⟩, htext⟩ := Pattern.attribute?_eq_some_iff.mp hread
    exact ⟨⟨hname, hform⟩, htext⟩
  · intro h
    obtain ⟨⟨hname, hform⟩, htext⟩ := h
    have hread : (Pattern.plain attr.name).attribute? text = some (attr, rest) :=
      Pattern.attribute?_eq_some_iff.mpr ⟨⟨rfl, hform⟩, htext⟩
    cases hfound : attributeOf? names text with
    | none =>
      rw [List.findSome?_eq_none_iff.mp hfound _ hname] at hread
      cases hread
    | some result =>
      obtain ⟨other, hother, hotherRead⟩ := List.exists_of_findSome?_eq_some hfound
      obtain ⟨⟨rfl, hotherForm⟩, hotherText⟩ := Pattern.attribute?_eq_some_iff.mp hotherRead
      -- The first `=` tells where the name ends.
      have hend {attr : Attribute} (hname : attr.name ∈ names) (hchain : attr.chain = none)
          (rest : Text) : Text.upTo? '=' (attr.written ++ rest) =
            some (attr.name, attr.value.written ++ rest) := by
        rw [Attribute.written, hchain, List.append_assoc]
        exact Text.upTo?_append_cons (not_mem_of_isAttributeName (hnames _ hname) (by decide)) _
      have hsame := (hend hname hform.1 rest).symm
      rw [← htext, hotherText, hend hother hotherForm.1] at hsame
      rw [← hotherRead, ← hread]
      exact congrArg (fun name => (Pattern.plain name).attribute? text)
        (Prod.mk.inj (Option.some.inj hsame)).1.symm

theorem attributeOf?_cons_of_blank {c : Char} {after : Text} (hc : isBlank c = true) :
    attributeOf? names (c :: after) = none := by
  apply List.findSome?_eq_none_iff.mpr
  intro name hname
  exact Pattern.attribute?_cons_of_blank (hnames name hname) hc

theorem not_blank_head_of_isPlainOf {attr : Attribute} (h : attr.IsPlainOf names) :
    ∃ c tail, attr.written = c :: tail ∧ isBlank c = false := by
  obtain ⟨c, tail, hcons, hplain⟩ := exists_eq_cons_of_isAttributeName (hnames _ h.1)
  have hc := not_blank_of_continuesName (hplain c (hcons ▸ List.mem_cons_self))
  rw [Attribute.written, hcons, List.cons_append]
  exact ⟨c, _, rfl, hc⟩

theorem follower?_eq_some_iff {text rest : Text} {follower : Text × Attribute} :
    follower? names text = some (follower, rest) ↔
      Follows names follower ∧ text = (follower.1 ++ follower.2.written) ++ rest := by
  obtain ⟨blanks, attr⟩ := follower
  constructor
  · intro h
    refine ⟨?_, eq_append_of_follower? h⟩
    unfold follower? at h
    split at h
    next => cases h
    next hblanks =>
      obtain ⟨⟨found, after⟩, hfound, hpair⟩ := Option.map_eq_some_iff.mp h
      simp only [Prod.mk.injEq] at hpair
      obtain ⟨⟨rfl, rfl⟩, rfl⟩ := hpair
      exact ⟨by simpa using hblanks, fun c hc => List.all_eq_true.mp List.all_takeWhile c hc,
        ((attributeOf?_eq_some_iff hnames).mp hfound).1⟩
  · intro h
    obtain ⟨⟨hne, hblanks, hattr⟩, rfl⟩ := h
    obtain ⟨c, tail, hwritten, hc⟩ := not_blank_head_of_isPlainOf hnames hattr
    have hstop : ¬isBlank c = true := by simp [hc]
    have htake : ((blanks ++ attr.written) ++ rest).takeWhile isBlank = blanks := by
      rw [List.append_assoc, List.takeWhile_append_of_pos hblanks, hwritten, List.cons_append,
        List.takeWhile_cons_of_neg hstop, List.append_nil]
    have hdrop : ((blanks ++ attr.written) ++ rest).dropWhile isBlank = attr.written ++ rest := by
      rw [List.append_assoc, List.dropWhile_append_of_pos hblanks, hwritten, List.cons_append,
        List.dropWhile_cons_of_neg hstop]
    have hread := (attributeOf?_eq_some_iff hnames).mpr
      ⟨hattr, (rfl : attr.written ++ rest = attr.written ++ rest)⟩
    dsimp only at hne ⊢
    rw [follower?, htake, hdrop, hread, if_neg (by simpa using hne), Option.map_some]

theorem follower?_written_append {follower : Text × Attribute} (h : Follows names follower)
    (more : List (Text × Attribute)) (rest : Text) :
    follower? names (followersWritten (follower :: more) ++ rest) =
      some (follower, followersWritten more ++ rest) :=
  (follower?_eq_some_iff hnames).mpr ⟨h, by simp [followersWritten]⟩

/-- As many attributes follow as can be read, and none is read behind them. -/
theorem followers_eq_iff {text rest : Text} {more : List (Text × Attribute)} :
    followers names text = (more, rest) ↔ (∀ follower ∈ more, Follows names follower) ∧
      follower? names rest = none ∧ text = followersWritten more ++ rest := by
  fun_induction followers names text generalizing more with
  | case1 text hnone =>
    constructor
    · intro h
      obtain ⟨rfl, rfl⟩ := Prod.mk.inj h
      exact ⟨by simp, hnone, rfl⟩
    · intro h
      obtain ⟨hmore, -, rfl⟩ := h
      cases more with
      | nil => rfl
      | cons follower more =>
        -- The first of them would have been read.
        rw [follower?_written_append hnames (hmore follower List.mem_cons_self)] at hnone
        cases hnone
  | case2 text follower tail hread found after hfound ih =>
    obtain ⟨hfollows, htext⟩ := (follower?_eq_some_iff hnames).mp hread
    constructor
    · intro h
      obtain ⟨rfl, rfl⟩ := Prod.mk.inj h
      obtain ⟨hmore, hnone, rfl⟩ := ih.mp hfound
      refine ⟨?_, hnone, by simp [htext, followersWritten]⟩
      rintro other hother
      rcases List.mem_cons.mp hother with rfl | hother
      · exact hfollows
      · exact hmore other hother
    · intro h
      obtain ⟨hmore, hnone, rfl⟩ := h
      cases more with
      | nil =>
        rw [followersWritten, List.flatMap_nil, List.nil_append, hnone] at hread
        cases hread
      | cons other more =>
        rw [follower?_written_append hnames (hmore other List.mem_cons_self)] at hread
        obtain ⟨rfl, rfl⟩ := Prod.mk.inj (Option.some.inj hread)
        have hrest := ih.mpr ⟨fun x hx => hmore x (List.mem_cons_of_mem _ hx), hnone, rfl⟩
        obtain ⟨rfl, rfl⟩ := Prod.mk.inj (hfound.symm.trans hrest)
        rfl

theorem neighbours?_eq_some_iff {text rest : Text} {first : Attribute}
    {more : List (Text × Attribute)} :
    neighbours? names text = some ((first, more), rest) ↔
      (first.IsPlainOf names ∧ more ≠ [] ∧ ∀ follower ∈ more, Follows names follower) ∧
        follower? names rest = none ∧ text = neighboursWritten (first, more) ++ rest := by
  constructor
  · intro h
    obtain ⟨⟨attr, tail⟩, hfirst, hrest⟩ := Option.bind_eq_some_iff.mp h
    obtain ⟨hattr, rfl⟩ := (attributeOf?_eq_some_iff hnames).mp hfirst
    dsimp only at hrest
    split at hrest
    next => cases hrest
    next found after hne hfound =>
      simp only [Option.some.injEq, Prod.mk.injEq] at hrest
      obtain ⟨⟨rfl, rfl⟩, rfl⟩ := hrest
      obtain ⟨hmore, hnone, rfl⟩ := (followers_eq_iff hnames).mp hfound
      refine ⟨⟨hattr, ?_, hmore⟩, hnone, by simp [neighboursWritten]⟩
      rintro rfl
      exact hne rfl
  · intro h
    obtain ⟨⟨hfirst, hne, hmore⟩, hnone, rfl⟩ := h
    have hread := (attributeOf?_eq_some_iff hnames).mpr
      ⟨hfirst, (rfl : first.written ++ (followersWritten more ++ rest) = _)⟩
    have hfollowers := (followers_eq_iff hnames).mpr ⟨hmore, hnone, rfl⟩
    rw [neighboursWritten, List.append_assoc, neighbours?, hread, Option.bind_some]
    simp only [hfollowers]

/-- A scan recognises exactly the runs that go on no further. -/
theorem runReader_read?_eq_some_iff {atStart : Bool} {text rest : Text} {run : Run} :
    (runReader names).read? atStart text = some (run, rest) ↔
      IsBoundary atStart run.lead ∧ run.IsOf names ∧ follower? names rest = none ∧
        text = run.written ++ rest := by
  have hblank {c : Char} {after : Text} (hc : isBlank c = true) :
      neighbours? names (c :: after) = none := by
    rw [neighbours?, attributeOf?_cons_of_blank hnames hc, Option.bind_none]
  obtain ⟨lead, first, more⟩ := run
  constructor
  · intro h
    obtain ⟨⟨⟨lead, first, more⟩, tail⟩, hfound, hpair⟩ := Option.map_eq_some_iff.mp h
    simp only [Prod.mk.injEq, Run.mk.injEq] at hpair
    obtain ⟨⟨rfl, rfl, rfl⟩, rfl⟩ := hpair
    obtain ⟨hlead, middle, rfl, hread⟩ := (afterBoundary?_eq_some_iff hblank).mp hfound
    obtain ⟨⟨hfirst, hne, hmore⟩, hnone, rfl⟩ := (neighbours?_eq_some_iff hnames).mp hread
    exact ⟨hlead, ⟨hfirst, hne, hmore⟩, hnone, by simp [Run.written, neighboursWritten]⟩
  · intro h
    obtain ⟨hlead, ⟨hfirst, hne, hmore⟩, hnone, rfl⟩ := h
    have hread := (neighbours?_eq_some_iff hnames).mpr ⟨⟨hfirst, hne, hmore⟩, hnone, rfl⟩
    have hfound := (afterBoundary?_eq_some_iff hblank).mpr ⟨hlead, _, rfl, hread⟩
    rw [← List.append_assoc] at hfound
    change (afterBoundary? (neighbours? names) atStart
      (lead ++ neighboursWritten (first, more) ++ rest)).map _ = _
    rw [hfound]
    rfl

/-! ## Where runs stand -/

/-- Two neighbouring attributes behind a boundary start a run. -/
theorem exists_runReader_read? {atStart : Bool} {lead : Text} {first : Attribute}
    {second : Text × Attribute} (hlead : IsBoundary atStart lead) (hfirst : first.IsPlainOf names)
    (hsecond : Follows names second) (rest : Text) :
    ∃ more after, (runReader names).read? atStart
      (lead ++ (first.written ++ (followersWritten [second] ++ rest))) =
        some (⟨lead, first, more⟩, after) := by
  -- The run goes on as far as it can, so it need not end with `second`.
  have hread := follower?_written_append hnames hsecond [] rest
  cases hfollowers : followers names (followersWritten [second] ++ rest) with
  | mk more after =>
    obtain ⟨hmore, hnone, htext⟩ := (followers_eq_iff hnames).mp hfollowers
    have hne : more ≠ [] := by
      rintro rfl
      rw [htext, followersWritten, List.flatMap_nil, List.nil_append, hnone] at hread
      cases hread
    refine ⟨more, after, (runReader_read?_eq_some_iff hnames).mpr
      ⟨hlead, ⟨hfirst, hne, hmore⟩, hnone, ?_⟩⟩
    rw [htext]
    simp [Run.written]

theorem exists_runReader_read?_iff {atStart : Bool} {text : Text} :
    (∃ run rest, (runReader names).read? atStart text = some (run, rest)) ↔
      ∃ (lead : Text) (first : Attribute) (second : Text × Attribute) (rest : Text),
        IsBoundary atStart lead ∧ first.IsPlainOf names ∧ Follows names second ∧
        text = lead ++ (first.written ++ (followersWritten [second] ++ rest)) := by
  constructor
  · intro h
    obtain ⟨⟨lead, first, more⟩, rest, hread⟩ := h
    obtain ⟨hlead, ⟨hfirst, hne, hmore⟩, -, rfl⟩ := (runReader_read?_eq_some_iff hnames).mp hread
    cases more with
    | nil => exact absurd rfl hne
    | cons second more =>
      refine ⟨lead, first, second, followersWritten more ++ rest, hlead, hfirst,
        hmore second List.mem_cons_self, ?_⟩
      simp [Run.written, followersWritten]
  · intro h
    obtain ⟨lead, first, second, rest, hlead, hfirst, hsecond, rfl⟩ := h
    obtain ⟨more, after, hread⟩ := exists_runReader_read? hnames hlead hfirst hsecond rest
    exact ⟨_, after, hread⟩

/-- A scan finds no run exactly when no two attributes of the names are neighbours. -/
theorem runReader_findAll_eq_nil_iff {text : Text} :
    (runReader names).findAll text = [] ↔ ¬HoldsRun names text := by
  rw [Reader.findAll_eq_nil_iff]
  constructor
  · intro h hexists
    obtain ⟨before, lead, first, second, after, rfl, hlead, hfirst, hsecond⟩ := hexists
    obtain ⟨run, rest, hread⟩ := (exists_runReader_read?_iff hnames).mpr
      ⟨lead, first, second, after, hlead, hfirst, hsecond, rfl⟩
    cases hrun : lead ++ (first.written ++ (followersWritten [second] ++ after)) with
    | nil => simp [first.written_ne_nil] at hrun
    | cons c tail =>
      have hnone := h before c tail (by rw [hrun])
      rw [List.append_nil, ← hrun, Bool.true_and, hread] at hnone
      cases hnone
  · intro h before c after htext
    apply Option.eq_none_iff_forall_ne_some.mpr
    intro ⟨run, rest⟩ hread
    apply h
    obtain ⟨lead, first, second, rest, hlead, hfirst, hsecond, hrest⟩ :=
      (exists_runReader_read?_iff hnames).mp ⟨run, rest, hread⟩
    refine ⟨before, lead, first, second, rest, ?_, hlead, hfirst, hsecond⟩
    rw [htext, ← hrest, List.append_nil]

/-- Where a run is recognised, the common front of the names stands. -/
theorem runReader_needsKey {key : Text} (hkey : ∀ name ∈ names, key <+: name) :
    (runReader names).NeedsKey key := by
  intro atStart text run rest hread
  obtain ⟨hlead, hrun, -, rfl⟩ := (runReader_read?_eq_some_iff hnames).mp hread
  have hfirst : key <+: run.first.written ++ (followersWritten run.more ++ rest) := by
    rw [Attribute.written, List.append_assoc]
    exact (hkey _ hrun.first.1).trans (List.prefix_append _ _)
  refine ⟨run.lead, hlead, ?_⟩
  rw [Run.written, List.append_assoc, List.append_assoc]
  exact (List.prefix_append_right_inj run.lead).mpr hfirst

/-! ## The attributes of a run -/

/-- A scan for attributes passes over the blanks and takes each attribute whole. -/
theorem attributeReader_cut_followersWritten {attrs : List (Text × Attribute)}
    (h : ∀ x ∈ attrs, (∀ c ∈ x.1, isBlank c = true) ∧ x.2.IsPlainOf names) (atStart : Bool) :
    (attributeReader names).cut atStart (followersWritten attrs) = followersPieces attrs := by
  induction attrs generalizing atStart with
  | nil => simp [followersWritten, followersPieces]
  | cons x attrs ih =>
    obtain ⟨hblanks, hattr⟩ := h x List.mem_cons_self
    have hpasses : (attributeReader names).PassesOver atStart x.1
        (x.2.written ++ followersWritten attrs) := by
      intro before c after hsplit
      have hc := hblanks c (hsplit ▸ List.mem_append_right _ List.mem_cons_self)
      exact attributeOf?_cons_of_blank hnames hc
    have hread : (attributeReader names).read? (atStart && x.1.isEmpty)
        (x.2.written ++ followersWritten attrs) = some (x.2, followersWritten attrs) :=
      (attributeOf?_eq_some_iff hnames).mpr ⟨hattr, rfl⟩
    have hcut := hpasses.cut_append
    rw [(attributeReader names).cut_of_some hread,
      ih fun y hy => h y (List.mem_cons_of_mem _ hy)] at hcut
    rw [followersWritten_cons, List.append_assoc, hcut]
    simp [followersPieces]

/-- The attributes that a run is read from are those that a scan of it takes. -/
theorem attributeReader_cut_run {run : Run} (hrun : run.IsOf names)
    (hlead : ∀ c ∈ run.lead, isBlank c = true) :
    (attributeReader names).cut true run.written = run.pieces := by
  rw [Run.written_eq, Run.pieces]
  exact attributeReader_cut_followersWritten hnames (hrun.blanks_and_plain hlead) true

theorem attributeReader_findAll_run {run : Run} (hrun : run.IsOf names)
    (hlead : ∀ c ∈ run.lead, isBlank c = true) :
    (attributeReader names).findAll run.written = run.attrs := by
  rw [Reader.findAll, attributeReader_cut_run hnames hrun hlead, Run.pieces,
    filterMap_found?_followersPieces]
  rfl

end Reading

end VariantClasses
