import VariantClasses.Proofs.Markup.Settled

/-! # The classes of transformed markup

What is collected from well-formed markup is what its attributes with the name itself name.
Merging takes the attributes with the alias along (`mem_collect_transformed_iff`). So every
reported class is read again from transformed markup, and no other is, exactly when the
attributes with the alias that are merged add none.
-/

namespace VariantClasses

open Text

/-- The classes that an attribute names: the words of its value, or their variants. -/
def Attribute.namedClasses (depth : Nat) (attr : Attribute) : List Text :=
  match attr.chain with
  | none => words attr.quotedText
  | some chain => (words attr.quotedText).flatMap (variants depth (modifiersOf chain))

section Names

variable {name : AttributeName} {depth : Nat} {class_ : Text}

/-! ## Collected classes -/

theorem Attribute.WellFormed.mem_classes_iff {attr : Attribute} (h : attr.WellFormed name) :
    (attr.pattern = .plain name.text ∧ class_ ∈ attr.plainClasses) ∨
        (attr.pattern = .modified name.text ∧ class_ ∈ attr.variantClasses depth) ↔
      attr.name = name.text ∧ class_ ∈ attr.namedClasses depth := by
  cases h with
  | @plain other body value hname hvalue hbody =>
    have hform : Attribute.pattern ⟨other, none, value⟩ ≠ .modified name.text :=
      fun h => Form.noConfusion (congrArg Pattern.form h)
    have hpattern : Attribute.pattern ⟨other, none, value⟩ = .plain name.text ↔
        other = name.text := by
      simp [Attribute.pattern, Pattern.plain]
    have hliteral : value.literal? = value.quotedBody? := by
      cases value with
      | double inner => rfl
      | single inner => rfl
      | braced inner => cases hvalue
    simp [hform, hpattern, plainClasses, namedClasses, quotedText, hliteral, hvalue]
  | @modified chain body value hchain hvalue hbody hspaces =>
    have hform : Pattern.modified name.text ≠ .plain name.text :=
      fun h => Form.noConfusion (congrArg Pattern.form h)
    have hpattern : Attribute.pattern ⟨name.text, some chain, value⟩ = .modified name.text := rfl
    have hmodifiers : Attribute.modifiers ⟨name.text, some chain, value⟩ = modifiersOf chain := rfl
    simp [hform, hpattern, variantClasses, namedClasses, hmodifiers,
      modifiersOf_ne_nil hchain.modifier]

/-- The classes collected from markup are those of its attributes with the name itself. -/
theorem mem_collect_written_iff {markup : Markup} (h : markup.WellFormed name)
    (hclass : AttributeName.class_.text <+: name.text) :
    class_ ∈ (collect depth (.plain name.text) (.modified name.text) markup.written).all ↔
      ∃ part ∈ markup.parts, ∃ attr ∈ part.1.attrs,
        attr.2.name = name.text ∧ class_ ∈ attr.2.namedClasses depth := by
  have hplain : ((Pattern.plain name.text).occurrences markup.written).map Occurrence.attr =
      markup.attributes.filter (·.pattern = .plain name.text) :=
    map_occurrences_written name.plain hclass h
  have hmodified : ((Pattern.modified name.text).occurrences markup.written).map
      Occurrence.attr = markup.attributes.filter (·.pattern = .modified name.text) :=
    map_occurrences_written name.plain hclass h
  have hcollected : (collect depth (.plain name.text) (.modified name.text) markup.written).all =
      ClassSet.ofList
        ((markup.attributes.filter (·.pattern = .plain name.text)).flatMap Attribute.plainClasses ++
          (markup.attributes.filter (·.pattern = .modified name.text)).flatMap
            (Attribute.variantClasses depth)) := by
    rw [← hplain, ← hmodified, List.flatMap_map, List.flatMap_map]
    rfl
  have hclasses {part : Block × Text} (hpart : part ∈ markup.parts) {attr : Text × Attribute}
      (hattr : attr ∈ part.1.attrs) :
      (attr.2.pattern = .plain name.text ∧ class_ ∈ attr.2.plainClasses) ∨
          (attr.2.pattern = .modified name.text ∧ class_ ∈ attr.2.variantClasses depth) ↔
        attr.2.name = name.text ∧ class_ ∈ attr.2.namedClasses depth :=
    (h.parts.blocks part hpart attr hattr).wellFormed.mem_classes_iff
  rw [hcollected, ClassSet.mem_ofList, List.mem_append]
  simp only [List.mem_flatMap, List.mem_filter, decide_eq_true_eq]
  constructor
  · rintro (⟨attr, ⟨hattr, hpattern⟩, hmem⟩ | ⟨attr, ⟨hattr, hpattern⟩, hmem⟩)
    · obtain ⟨part, hpart, other, hother, rfl⟩ := Markup.mem_attributes_iff.mp hattr
      exact ⟨part, hpart, other, hother, (hclasses hpart hother).mp (.inl ⟨hpattern, hmem⟩)⟩
    · obtain ⟨part, hpart, other, hother, rfl⟩ := Markup.mem_attributes_iff.mp hattr
      exact ⟨part, hpart, other, hother, (hclasses hpart hother).mp (.inr ⟨hpattern, hmem⟩)⟩
  · rintro ⟨part, hpart, attr, hattr, hnamed⟩
    have hfound : attr.2 ∈ markup.attributes :=
      Markup.mem_attributes_iff.mpr ⟨part, hpart, attr, hattr, rfl⟩
    apply ((hclasses hpart hattr).mpr hnamed).imp
    · exact fun ⟨hpattern, hmem⟩ => ⟨attr.2, ⟨hfound, hpattern⟩, hmem⟩
    · exact fun ⟨hpattern, hmem⟩ => ⟨attr.2, ⟨hfound, hpattern⟩, hmem⟩

/-! ## Classes of joined attributes -/

theorem Attribute.WellFormed.mem_words_classText_iff {attr : Attribute} (h : attr.WellFormed name) :
    class_ ∈ words (attr.classText depth) ↔ class_ ∈ attr.namedClasses depth := by
  cases h with
  | plain hname hvalue hbody => exact mem_words_trim
  | @modified chain body value hchain hvalue hbody hspaces =>
    have hsolid {class_ : Text} (hclass : class_ ∈ (words (Attribute.quotedText
        ⟨name.text, some chain, value⟩)).flatMap (variants depth (modifiersOf chain))) :
        class_ ≠ [] ∧ ∀ c ∈ class_, isBlank c = false :=
      solid_of_mem_classes (fun c hc => (hchain.chars c hc).1) hclass
    simp only [classText, namedClasses, mem_words_joinWith, List.mem_eraseDups]
    constructor
    · intro h
      obtain ⟨other, hother, hword⟩ := h
      obtain ⟨hne, hblank⟩ := hsolid hother
      rw [words_eq_singleton hne hblank, List.mem_singleton] at hword
      rwa [hword]
    · intro h
      obtain ⟨hne, hblank⟩ := hsolid h
      exact ⟨class_, h, by rw [words_eq_singleton hne hblank]; exact List.mem_cons_self⟩

theorem Block.mem_words_classTexts_iff {block : Block}
    (h : ∀ attr ∈ block.attrs, Block.Holds name attr) :
    (∃ text ∈ block.classTexts depth, class_ ∈ words text) ↔
      ∃ attr ∈ block.attrs, class_ ∈ attr.2.namedClasses depth := by
  constructor
  · rintro ⟨text, htext, hword⟩
    obtain ⟨attr, hattr, rfl⟩ := List.mem_map.mp (List.mem_filter.mp htext).1
    exact ⟨attr, hattr, (h attr hattr).wellFormed.mem_words_classText_iff.mp hword⟩
  · rintro ⟨attr, hattr, hnamed⟩
    have hword := (h attr hattr).wellFormed.mem_words_classText_iff.mpr hnamed
    refine ⟨_, List.mem_filter.mpr ⟨List.mem_map_of_mem hattr, ?_⟩, hword⟩
    cases htext : attr.2.classText depth with
    | nil => simp [htext, words] at hword
    | cons c rest => rfl

/-- The attribute that a block becomes names the classes of all attributes of the block. An
attribute with the alias that is alone keeps its name. -/
theorem Block.exists_joined_iff {block : Block} (h : ∀ attr ∈ block.attrs, Block.Holds name attr) :
    (∃ attr ∈ block.joined? depth name.text,
        attr.name = name.text ∧ class_ ∈ attr.namedClasses depth) ↔
      ∃ attr ∈ block.attrs, (attr.2.name = name.text ∨ block.more ≠ []) ∧
        class_ ∈ attr.2.namedClasses depth := by
  have hwords : (∃ text ∈ block.classTexts depth, class_ ∈ words text) ↔
      ∃ attr ∈ block.attrs, class_ ∈ attr.2.namedClasses depth :=
    Block.mem_words_classTexts_iff h
  cases hmore : block.more with
  | nil =>
    have hfirst := (h block.first List.mem_cons_self).wellFormed
    have hexpanded : (block.first.2.expanded depth name.text).name = name.text ∧
        class_ ∈ (block.first.2.expanded depth name.text).namedClasses depth ↔
          block.first.2.name = name.text ∧ class_ ∈ block.first.2.namedClasses depth := by
      cases hchain : block.first.2.chain with
      | none => simp [Attribute.expanded, hchain]
      | some chain =>
        have hname : block.first.2.name = name.text := by
          cases hblock : block.first.2 with
          | mk other found value =>
            rw [hblock] at hfirst hchain
            cases hfirst with
            | plain => cases hchain
            | modified => rfl
        rw [← hfirst.mem_words_classText_iff]
        simp [Attribute.expanded, hchain, hname, Attribute.namedClasses, Attribute.quotedText,
          Value.quotedBody?]
    simpa [joined?, hmore, Block.attrs] using hexpanded
  | cons second more =>
    cases htexts : block.classTexts depth with
    | nil => simpa [joined?, hmore, htexts] using hwords
    | cons text texts =>
      rw [htexts] at hwords
      simpa [joined?, hmore, htexts, Attribute.namedClasses, Attribute.quotedText,
        Value.quotedBody?, mem_words_joinWith] using hwords

/-! ## Reading transformed markup -/

theorem attributes_settle (depth : Nat) (text opening : Text) (parts : List (Block × Text)) :
    (settle depth text opening parts).attributes =
      parts.filterMap fun part => part.1.joined? depth text := by
  fun_induction settle depth text opening parts with
  | case1 opening => rfl
  | case2 opening block behind parts hgone ih =>
    rw [ih, List.filterMap_cons]
    simp only [hgone]
  | case3 opening block behind parts attr hattr rest ih =>
    rw [List.filterMap_cons, ← ih]
    simp only [hattr]
    rfl

/-- The classes read from transformed markup are those of all attributes, except of attributes
with the alias that are alone in their block. -/
theorem mem_collect_transformed_iff {markup : Markup} (h : markup.WellFormed name)
    (hclass : AttributeName.class_.text <+: name.text) :
    class_ ∈ (collect depth (.plain name.text) (.modified name.text)
        (markup.transformed depth name.text)).all ↔
      ∃ part ∈ markup.parts, ∃ attr ∈ part.1.attrs,
        (attr.2.name = name.text ∨ part.1.more ≠ []) ∧ class_ ∈ attr.2.namedClasses depth := by
  have hattributes : (markup.settled depth name.text).attributes =
      markup.parts.filterMap fun part => part.1.joined? depth name.text :=
    attributes_settle depth name.text markup.opening markup.parts
  obtain ⟨hwell, -⟩ := h.settled depth
  rw [← settled_written, mem_collect_written_iff hwell hclass]
  constructor
  · rintro ⟨part, hpart, attr, hattr, hnamed⟩
    have hfound : attr.2 ∈ (markup.settled depth name.text).attributes :=
      Markup.mem_attributes_iff.mpr ⟨part, hpart, attr, hattr, rfl⟩
    rw [hattributes, List.mem_filterMap] at hfound
    obtain ⟨source, hsource, hjoined⟩ := hfound
    exact ⟨source, hsource,
      (Block.exists_joined_iff (h.parts.blocks source hsource)).mp ⟨attr.2, hjoined, hnamed⟩⟩
  · rintro ⟨part, hpart, hblock⟩
    obtain ⟨attr, hjoined, hnamed⟩ :=
      (Block.exists_joined_iff (h.parts.blocks part hpart)).mpr hblock
    have hfound : attr ∈ (markup.settled depth name.text).attributes := by
      rw [hattributes]
      exact List.mem_filterMap.mpr ⟨part, hpart, hjoined⟩
    obtain ⟨source, hsource, other, hother, rfl⟩ := Markup.mem_attributes_iff.mp hfound
    exact ⟨source, hsource, other, hother, hnamed⟩

end Names

/-- Every reported class is read from transformed markup. No other class is read exactly when
the attributes with the alias that are merged name reported classes only. -/
theorem collect_code_eq_classes_iff (options : Options) (dialect : Dialect) (markup : Markup)
    (h : markup.WellFormed dialect.attributeName) :
    let name := dialect.attributeName.text
    let result := transform options dialect markup.written
    let read := (collect options.maxDepth (.plain name) (.modified name) result.code).all
    (∀ class_ ∈ result.classes, class_ ∈ read) ∧
      (read = result.classes ↔ ∀ part ∈ markup.parts, part.1.more ≠ [] →
        ∀ attr ∈ part.1.attrs, attr.2.name ≠ name →
          ∀ class_ ∈ words attr.2.quotedText, class_ ∈ result.classes) := by
  intro name result read
  have hname := dialect.prefix_class _ List.mem_cons_self
  have hread (class_ : Text) : class_ ∈ read ↔ ∃ part ∈ markup.parts, ∃ attr ∈ part.1.attrs,
      (attr.2.name = name ∨ part.1.more ≠ []) ∧ class_ ∈ attr.2.namedClasses options.maxDepth := by
    have hcode : result.code = markup.transformed options.maxDepth name :=
      merge_expand_written dialect.prefix_class h options.maxDepth
    rw [← mem_collect_transformed_iff h hname, ← hcode]
  have hreported (class_ : Text) : class_ ∈ result.classes ↔
      ∃ part ∈ markup.parts, ∃ attr ∈ part.1.attrs,
        attr.2.name = name ∧ class_ ∈ attr.2.namedClasses options.maxDepth :=
    mem_collect_written_iff h hname
  -- An attribute with the alias has no chain, so it names the words of its value.
  have hwords {part : Block × Text} (hpart : part ∈ markup.parts) {attr : Text × Attribute}
      (hattr : attr ∈ part.1.attrs) (hne : attr.2.name ≠ name) :
      attr.2.namedClasses options.maxDepth = words attr.2.quotedText := by
    have hwell := (h.parts.blocks part hpart attr hattr).wellFormed
    obtain ⟨blanks, other, chain, value⟩ := attr
    cases hwell with
    | plain => rfl
    | modified => exact absurd rfl hne
  have hsubset : ∀ class_ ∈ result.classes, class_ ∈ read := by
    intro class_ hclass
    obtain ⟨part, hpart, attr, hattr, hown, hnamed⟩ := (hreported class_).mp hclass
    exact (hread class_).mpr ⟨part, hpart, attr, hattr, .inl hown, hnamed⟩
  refine ⟨hsubset, ?_⟩
  constructor
  · intro heq part hpart hmore attr hattr hne class_ hword
    rw [← hwords hpart hattr hne] at hword
    rw [← heq]
    exact (hread class_).mpr ⟨part, hpart, attr, hattr, .inr hmore, hword⟩
  · intro hmerged
    ext class_
    constructor
    · intro hclass
      obtain ⟨part, hpart, attr, hattr, hwhere, hnamed⟩ := (hread class_).mp hclass
      by_cases hown : attr.2.name = name
      · exact (hreported class_).mpr ⟨part, hpart, attr, hattr, hown, hnamed⟩
      · rw [hwords hpart hattr hown] at hnamed
        exact hmerged part hpart (hwhere.resolve_left hown) attr hattr hown class_ hnamed
    · exact hsubset class_

/-- An attribute with the alias that names a reported class only. -/
theorem collect_code_eq_classes_of_repeated_class :
    let block : Block :=
      ⟨(" ".toList, ⟨"class".toList, none, .double "a sm:b".toList⟩),
        [(" ".toList, ⟨"className".toList, none, .double "sm:b".toList⟩),
          (" ".toList, ⟨"class".toList, some "sm".toList, .double "b".toList⟩)]⟩
    let markup : Markup := ⟨"<p".toList, [(block, ">".toList)]⟩
    let name := AttributeName.class_.text
    let result := transform {} .class_ markup.written
    markup.WellFormed AttributeName.class_ ∧
      result.code = "<p class=\"a sm:b sm:b sm:b\">".toList ∧
      (collect defaultDepth (.plain name) (.modified name) result.code).all = result.classes := by
  intro block markup name result
  have hmarkup : markup.WellFormed AttributeName.class_ := by decide +kernel
  refine ⟨hmarkup, by decide +kernel, ?_⟩
  apply (collect_code_eq_classes_iff {} .class_ markup hmarkup).2.mpr
  intro part hpart hmore attr hattr hne class_ hclass
  obtain rfl := List.mem_singleton.mp hpart
  have hreported : ∀ attr ∈ block.attrs, attr.2.name ≠ name →
      ∀ class_ ∈ words attr.2.quotedText, class_ ∈ result.classes := by decide +kernel
  exact hreported attr hattr hne class_ hclass

/-- A class of the alias that is named nowhere else is shipped and not reported. -/
theorem collect_code_ne_classes_of_merged_alias :
    let block : Block :=
      ⟨(" ".toList, ⟨"class".toList, none, .double "a".toList⟩),
        [(" ".toList, ⟨"className".toList, none, .double "x".toList⟩)]⟩
    let markup : Markup := ⟨"<p".toList, [(block, ">".toList)]⟩
    let name := AttributeName.class_.text
    let result := transform {} .class_ markup.written
    let read := (collect defaultDepth (.plain name) (.modified name) result.code).all
    markup.written = "<p class=\"a\" className=\"x\">".toList ∧
      markup.WellFormed AttributeName.class_ ∧
      result.code = "<p class=\"a x\">".toList ∧
      result.classes = .ofList ["a".toList] ∧ read = .ofList ["a".toList, "x".toList] ∧
      read ≠ result.classes := by
  decide +kernel

end VariantClasses
