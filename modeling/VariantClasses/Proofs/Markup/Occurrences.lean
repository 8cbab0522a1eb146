import VariantClasses.Proofs.Markup.Scanning

/-! # The attributes found in well-formed markup

A scan of well-formed markup finds the attributes of its pattern in the blocks, and nothing
else (`map_occurrences_written`). An attribute belongs to one pattern only, since the text
tells where its name ends and which mark follows the name.
-/

namespace VariantClasses

open Text

def Markup.attributes (markup : Markup) : List Attribute :=
  markup.parts.flatMap fun part => part.1.attrs.map Prod.snd

theorem Markup.mem_attributes_iff {markup : Markup} {attr : Attribute} :
    attr ∈ markup.attributes ↔
      ∃ part ∈ markup.parts, ∃ other ∈ part.1.attrs, other.2 = attr := by
  simp only [attributes, List.mem_flatMap, List.mem_map]

/-- The pattern that an attribute belongs to. -/
def Attribute.pattern (attr : Attribute) : Pattern :=
  ⟨attr.name, if attr.chain.isNone then .plain else .modified⟩

/-! ## One pattern for each attribute -/

/-- A text that starts with a name and the mark behind it tells which they are. -/
theorem Pattern.eq_of_prefix {pattern other : Pattern} {text : Text}
    (hname : isAttributeName pattern.name = true) (hother : isAttributeName other.name = true)
    (h : pattern.name ++ [pattern.form.mark] <+: text)
    (hotherPrefix : other.name ++ [other.form.mark] <+: text) : pattern = other := by
  have hmark (form : Form) : ¬continuesName form.mark = true := by
    cases form <;> decide
  have hsplit {pattern : Pattern} (hname : isAttributeName pattern.name = true)
      (h : pattern.name ++ [pattern.form.mark] <+: text) :
      text.takeWhile continuesName = pattern.name ∧
        (text.dropWhile continuesName).head? = some pattern.form.mark := by
    obtain ⟨rest, rfl⟩ := h
    obtain ⟨_, _, -, hplain⟩ := exists_eq_cons_of_isAttributeName hname
    rw [List.append_assoc, List.takeWhile_append_of_pos hplain,
      List.dropWhile_append_of_pos hplain, List.singleton_append,
      List.takeWhile_cons_of_neg (hmark _), List.dropWhile_cons_of_neg (hmark _)]
    simp
  obtain ⟨hfront, hhead⟩ := hsplit hname h
  obtain ⟨hotherFront, hotherHead⟩ := hsplit hother hotherPrefix
  obtain ⟨name, form⟩ := pattern
  obtain ⟨otherName, otherForm⟩ := other
  obtain rfl : name = otherName := hfront.symm.trans hotherFront
  have hmarks : form.mark = otherForm.mark := Option.some.inj (hhead.symm.trans hotherHead)
  cases form <;> cases otherForm <;> first | rfl | exact absurd hmarks (by decide)

/-- No name stands in a value and the mark before it. -/
theorem not_infix_value {value : Value} {body : Text} (hvalue : value.quotedBody? = some body)
    (hbody : IsPlainValue body) : ¬AttributeName.class_.text <:+: '=' :: value.written := by
  obtain ⟨quote, hquote, hwritten⟩ := exists_quote hvalue
  have hquoteMark : quote ∉ AttributeName.class_.text := by
    rcases hquote with rfl | rfl
    · decide
    · decide
  have hne : AttributeName.class_.text ≠ [] := by decide
  have hsplit : '=' :: value.written = ['='] ++ quote :: (body ++ quote :: []) := by
    rw [hwritten]
    rfl
  rw [hsplit, infix_append_cons_iff hquoteMark hne, infix_append_cons_iff hquoteMark hne]
  intro h
  rcases h with h | h | h
  · exact absurd (h.subset (by decide : 'c' ∈ AttributeName.class_.text)) (by decide)
  · exact isNameless_iff.mp hbody.nameless h
  · exact hne (List.infix_nil.mp h)

section Names

variable {name : AttributeName} {attr : Attribute}

theorem Attribute.WellFormed.name_mem (h : attr.WellFormed name) :
    attr.name ∈ name.mergedNames := by
  cases h with
  | plain hname _ _ => exact hname
  | modified _ _ _ _ => exact List.mem_cons_self

theorem Attribute.WellFormed.admits (h : attr.WellFormed name) : attr.pattern.Admits attr := by
  cases h with
  | plain hname hvalue hbody => exact ⟨rfl, rfl, hbody.isClosed hvalue⟩
  | modified hchain hvalue hbody _ =>
    refine ⟨rfl, ⟨_, rfl, fun c hc => continuesChain_iff.mpr (hchain.chars c hc)⟩,
      hbody.isClosed hvalue, ?_⟩
    rw [hvalue]
    rfl

/-- Before its value an attribute has no blank, and in the value no name. -/
theorem Attribute.WellFormed.exists_written_eq (h : attr.WellFormed name) :
    ∃ front value, attr.written = front ++ '=' :: Value.written value ∧
      (∀ c ∈ front, isBlank c = false) ∧
      ¬AttributeName.class_.text <:+: '=' :: Value.written value := by
  have hname : ∀ c ∈ attr.name, isBlank c = false := by
    obtain ⟨_, _, -, hplain⟩ :=
      exists_eq_cons_of_isAttributeName (name.mergedNames_plain _ h.name_mem)
    exact fun c hc => not_blank_of_continuesName (hplain c hc)
  cases h with
  | plain _ hvalue hbody => exact ⟨_, _, rfl, hname, not_infix_value hvalue hbody⟩
  | @modified chain body value hchain hvalue hbody _ =>
    refine ⟨name.text ++ ':' :: chain, value, by simp [Attribute.written], fun c hc => ?_,
      not_infix_value hvalue hbody⟩
    rcases List.mem_append.mp hc with hc | hc
    · exact hname c hc
    · rcases List.mem_cons.mp hc with rfl | hc
      · decide
      · exact (hchain.chars c hc).1

/-- An attribute is passed over when it is not recognised behind the blank before it. -/
theorem passesOver_attribute {α : Type} {reader : Reader α}
    (hkey : reader.NeedsKey AttributeName.class_.text) (h : attr.WellFormed name) {c : Char}
    {rest : Text} (hrest : EndsAttribute rest) {atStart : Bool}
    (hnone : reader.read? atStart (c :: (attr.written ++ rest)) = none) :
    reader.PassesOver atStart (c :: attr.written) rest := by
  obtain ⟨front, value, hwritten, hfront, hvalue⟩ := h.exists_written_eq
  refine Reader.passesOver_cons_iff.mpr ⟨hnone, ?_⟩
  rw [hwritten]
  refine Reader.passesOver_append_iff.mpr ⟨hkey.passesOver_of_not_blank hfront _, ?_⟩
  apply hkey.passesOver hvalue
  intro d hd hmem
  exact not_mem_of_endsAttribute AttributeName.class_.plain hrest d hd
    (List.mem_append_left _ hmem)

/-- What is read off neighbouring attributes is what is read off each. -/
theorem yields_attributes {α β : Type} {reader : Reader α} {value : Piece α → List β}
    {attrValue : Text × Attribute → List β} {attrs : List (Text × Attribute)}
    (hattrs : ∀ attr ∈ attrs, Block.Holds name attr)
    (hyields : ∀ attr ∈ attrs, ∀ rest, EndsAttribute rest → ∀ atStart,
      reader.Yields value atStart (attr.1 ++ attr.2.written) rest (attrValue attr))
    {rest : Text} (hrest : EndsAttribute rest) (atStart : Bool) :
    reader.Yields value atStart (followersWritten attrs) rest (attrs.flatMap attrValue) := by
  induction attrs generalizing atStart with
  | nil => exact (Reader.passesOver_nil atStart rest).yields
  | cons attr attrs ih =>
    have hmore : ∀ other ∈ attrs, Block.Holds name other :=
      fun other hother => hattrs other (List.mem_cons_of_mem _ hother)
    -- The next attribute stands behind a blank.
    have hends : EndsAttribute (followersWritten attrs ++ rest) := by
      cases attrs with
      | nil => exact hrest
      | cons second attrs =>
        obtain ⟨c, blanks, hblanks, hc⟩ := (hmore second List.mem_cons_self).exists_eq_cons
        intro d hd
        simp only [followersWritten_cons, hblanks, List.cons_append, List.head?_cons,
          Option.mem_some_iff] at hd
        exact .inl (hd ▸ hc)
    rw [followersWritten_cons, List.flatMap_cons]
    exact (hyields attr List.mem_cons_self _ hends atStart).append
      (ih hmore (fun other hother => hyields other (List.mem_cons_of_mem _ hother)) _)

/-! ## Finding attributes -/

section Pattern

variable {pattern : Pattern} (hpattern : isAttributeName pattern.name = true)

include hpattern

/-- An attribute of another pattern is not recognised. -/
theorem read?_eq_none_of_pattern_ne (h : attr.WellFormed name) (hne : attr.pattern ≠ pattern)
    {c : Char} (hc : isBlank c = true) (rest : Text) (atStart : Bool) :
    pattern.reader.read? atStart (c :: (attr.written ++ rest)) = none := by
  apply Option.eq_none_iff_forall_ne_some.mpr
  intro ⟨⟨lead, found⟩, tail⟩ hread
  obtain ⟨hlead, hadmits, htext⟩ := (Pattern.reader_read?_eq_some_iff hpattern).mp hread
  dsimp only at hlead hadmits
  rcases hlead with ⟨-, rfl⟩ | ⟨d, -, rfl⟩
  · -- Without a boundary the attribute would start with the blank.
    have hblank : pattern.attribute? (c :: (attr.written ++ rest)) = none :=
      Pattern.attribute?_cons_of_blank hpattern hc
    rw [htext, Occurrence.written, List.nil_append,
      Pattern.attribute?_eq_some_iff.mpr ⟨hadmits, rfl⟩] at hblank
    cases hblank
  · rw [Occurrence.written, List.singleton_append, List.cons_append] at htext
    obtain ⟨-, htail⟩ := List.cons.inj htext
    have hfound : pattern.name ++ [pattern.form.mark] <+: attr.written ++ rest := by
      rw [htail]
      exact hadmits.prefix_written.trans (List.prefix_append _ _)
    have hattr : attr.name ++ [attr.pattern.form.mark] <+: attr.written ++ rest :=
      h.admits.prefix_written.trans (List.prefix_append _ _)
    exact hne (Pattern.eq_of_prefix (name.mergedNames_plain _ h.name_mem) hpattern hattr hfound)

variable (hclass : AttributeName.class_.text <+: pattern.name)

include hclass

theorem Pattern.reader_needsKey_class : pattern.reader.NeedsKey AttributeName.class_.text :=
  (Pattern.reader_needsKey hpattern).of_front (hclass.trans (List.prefix_append _ _))

theorem yields_attribute {attr : Text × Attribute} (hattr : Block.Holds name attr) {rest : Text}
    (hrest : EndsAttribute rest) (atStart : Bool) :
    pattern.reader.Yields (Piece.image Occurrence.attr) atStart (attr.1 ++ attr.2.written) rest
      ([attr.2].filter (·.pattern = pattern)) := by
  have hkey := Pattern.reader_needsKey_class hpattern hclass
  obtain ⟨front, c, hblanks, hc, hfront⟩ := hattr.exists_eq_append
  have hskipped : pattern.reader.PassesOver atStart front (c :: attr.2.written ++ rest) :=
    passesOver_nameless hkey hfront (by simp [hc]) atStart
  rw [hblanks, List.append_assoc, List.singleton_append,
    ← List.nil_append ([attr.2].filter _)]
  refine hskipped.yields_image.append ?_
  by_cases heq : attr.2.pattern = pattern
  · have hread (start : Bool) : pattern.reader.read? start
        (Occurrence.written ⟨[c], attr.2⟩ ++ rest) = some (⟨[c], attr.2⟩, rest) :=
      (Pattern.reader_read?_eq_some_iff hpattern).mpr
        ⟨.inr ⟨c, hc, rfl⟩, heq ▸ hattr.wellFormed.admits, rfl⟩
    rw [List.filter_cons_of_pos (by simpa using heq), List.filter_nil]
    exact Reader.yields_of_read (hread _)
  · rw [List.filter_cons_of_neg (by simpa using heq), List.filter_nil]
    have hnone := read?_eq_none_of_pattern_ne hpattern hattr.wellFormed heq hc rest
      (atStart && front.isEmpty)
    exact (passesOver_attribute hkey hattr.wellFormed hrest hnone).yields_image

theorem yields_block {block : Block} (h : ∀ attr ∈ block.attrs, Block.Holds name attr)
    {rest : Text} (hrest : EndsAttribute rest) (atStart : Bool) :
    pattern.reader.Yields (Piece.image Occurrence.attr) atStart block.written rest
      ((block.attrs.map Prod.snd).filter (·.pattern = pattern)) := by
  rw [List.map_eq_flatMap, List.filter_flatMap]
  exact yields_attributes h (fun attr hattr rest hrest =>
    yields_attribute hpattern hclass (h attr hattr) hrest) hrest atStart

/-- The attributes that a scan of markup finds are those of its pattern, in order. -/
theorem map_occurrences_written {markup : Markup} (h : markup.WellFormed name) :
    (pattern.occurrences markup.written).map Occurrence.attr =
      markup.attributes.filter (·.pattern = pattern) := by
  rw [Markup.attributes, List.filter_flatMap]
  apply map_findAll_written (Pattern.reader_needsKey_class hpattern hclass)
    (fun block => (block.attrs.map Prod.snd).filter (·.pattern = pattern)) h
  intro part hpart atStart text after hbehind
  exact yields_block hpattern hclass (h.parts.blocks part hpart) hbehind.ends_append atStart

end Pattern

end Names

end VariantClasses
