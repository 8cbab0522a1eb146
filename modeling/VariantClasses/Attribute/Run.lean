import VariantClasses.Attribute.Occurrence

/-! # Runs of attributes

A run is two or more attributes of one name, or its alias, with blanks only between
them, behind a boundary. A scan finds the runs of a text, each as long as it can be.
-/

namespace VariantClasses

/-- Two or more neighbouring attributes behind a boundary. -/
structure Run where
  /-- The blank before the run, or nothing at the start of the text. -/
  lead : Text
  first : Attribute
  /-- The attributes after the first, each with the blanks before it. -/
  more : List (Text × Attribute)
  deriving DecidableEq

/-- The characters of attributes that follow another, each with the blanks before it. -/
def followersWritten (followers : List (Text × Attribute)) : Text :=
  followers.flatMap fun (blanks, attr) => blanks ++ attr.written

def Run.written (run : Run) : Text :=
  run.lead ++ (run.first.written ++ followersWritten run.more)

/-- The plain attribute of one of the names at the front of a text, and what follows. -/
def attributeOf? (names : List Text) (text : Text) : Option (Attribute × Text) :=
  names.findSome? fun name => (Pattern.plain name).attribute? text

theorem eq_append_of_attributeOf? {names : List Text} {text rest : Text} {attr : Attribute}
    (h : attributeOf? names text = some (attr, rest)) : text = attr.written ++ rest := by
  obtain ⟨name, _, hname⟩ := List.exists_of_findSome?_eq_some h
  exact Pattern.eq_append hname

/-- One attribute behind blanks at the front of a text, and what follows. -/
def follower? (names : List Text) (text : Text) : Option ((Text × Attribute) × Text) :=
  if (text.takeWhile isBlank).isEmpty then none
  else
    (attributeOf? names (text.dropWhile isBlank)).map fun (attr, rest) =>
      ((text.takeWhile isBlank, attr), rest)

theorem eq_append_of_follower? {names : List Text} {text rest blanks : Text} {attr : Attribute}
    (h : follower? names text = some ((blanks, attr), rest)) :
    text = (blanks ++ attr.written) ++ rest := by
  unfold follower? at h
  split at h
  · simp at h
  · obtain ⟨⟨found, after⟩, hfound, hpair⟩ := Option.map_eq_some_iff.mp h
    simp only [Prod.mk.injEq] at hpair
    obtain ⟨⟨rfl, rfl⟩, rfl⟩ := hpair
    rw [List.append_assoc, ← eq_append_of_attributeOf? hfound,
      List.takeWhile_append_dropWhile]

theorem length_lt_of_follower? {names : List Text} {text rest : Text} {x : Text × Attribute}
    (h : follower? names text = some (x, rest)) : rest.length < text.length := by
  obtain ⟨blanks, attr⟩ := x
  have hpos := List.length_pos_iff.mpr attr.written_ne_nil
  rw [eq_append_of_follower? h]
  simp only [List.length_append]
  omega

/-- As many attributes behind blanks as the front of a text holds, and what follows. -/
def followers (names : List Text) (text : Text) : List (Text × Attribute) × Text :=
  match _h : follower? names text with
  | none => ([], text)
  | some (x, rest) =>
    let (more, after) := followers names rest
    (x :: more, after)
termination_by text.length
decreasing_by exact length_lt_of_follower? _h

theorem eq_append_of_followers (names : List Text) (text : Text) :
    text = followersWritten (followers names text).1 ++ (followers names text).2 := by
  fun_induction followers names text with
  | case1 => rfl
  | case2 text x rest h more after hmore ih =>
    obtain ⟨blanks, attr⟩ := x
    rw [hmore] at ih
    rw [eq_append_of_follower? h, ih]
    simp [followersWritten]

/-- The attributes of a run at the front of a text, and what follows. -/
def neighbours? (names : List Text) (text : Text) :
    Option ((Attribute × List (Text × Attribute)) × Text) :=
  (attributeOf? names text).bind fun (first, rest) =>
    match followers names rest with
    | ([], _) => none
    | (more, after) => some ((first, more), after)

def neighboursWritten (attrs : Attribute × List (Text × Attribute)) : Text :=
  attrs.1.written ++ followersWritten attrs.2

theorem eq_append_of_neighbours? {names : List Text} {text rest : Text}
    {attrs : Attribute × List (Text × Attribute)}
    (h : neighbours? names text = some (attrs, rest)) :
    text = neighboursWritten attrs ++ rest := by
  obtain ⟨⟨first, tail⟩, hfirst, h⟩ := Option.bind_eq_some_iff.mp h
  have htail := eq_append_of_followers names tail
  dsimp only at h
  split at h
  next => simp at h
  next more after _ hmore =>
    simp only [Option.some.injEq, Prod.mk.injEq] at h
    obtain ⟨rfl, rfl⟩ := h
    rw [hmore] at htail
    rw [eq_append_of_attributeOf? hfirst, htail, neighboursWritten, List.append_assoc]

/-- Recognises the runs of attributes with one of the names. -/
def runReader (names : List Text) : Reader Run where
  read? atStart text :=
    (afterBoundary? (neighbours? names) atStart text).map fun ((lead, first, more), rest) =>
      (⟨lead, first, more⟩, rest)
  written := Run.written
  eq_append h := by
    obtain ⟨⟨⟨lead, first, more⟩, rest⟩, hfound, hpair⟩ := Option.map_eq_some_iff.mp h
    obtain ⟨rfl, rfl⟩ := Prod.mk.inj hpair
    have happend : _ = (lead ++ neighboursWritten (first, more)) ++ rest :=
      eq_append_of_afterBoundary? eq_append_of_neighbours? hfound
    exact happend
  written_ne_nil _ := by
    simp [Run.written, Attribute.written_ne_nil]

/-- Recognises the attributes with one of the names, whatever precedes them. -/
def attributeReader (names : List Text) : Reader Attribute where
  read? _ text := attributeOf? names text
  written := Attribute.written
  eq_append := eq_append_of_attributeOf?
  written_ne_nil _ := Attribute.written_ne_nil _

end VariantClasses
