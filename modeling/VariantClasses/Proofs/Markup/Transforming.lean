import VariantClasses.Proofs.Markup.Expanding
import VariantClasses.Proofs.Markup.Merging

/-! # Transforming well-formed markup

Expanding makes the attributes of well-formed markup plain, and merging makes the attributes
of each block one. Together they turn each block to what it becomes, and nothing else.
-/

namespace VariantClasses

open Text

/-! ## Trimmed classes -/

/-- The variants of a word under a chain without blanks have no blanks either. -/
theorem solid_of_mem_classes {depth : Nat} {value chain class_ : Text}
    (hchain : ∀ c ∈ chain, isBlank c = false)
    (h : class_ ∈ (words value).flatMap (variants depth (modifiersOf chain))) :
    class_ ≠ [] ∧ ∀ c ∈ class_, isBlank c = false := by
  obtain ⟨word, hword, hvariant⟩ := List.mem_flatMap.mp h
  obtain ⟨front, rfl, hfront⟩ := exists_of_mem_variants hvariant
  refine ⟨by simp [underModifier], fun c hc => ?_⟩
  rcases List.mem_append.mp hc with hc | hc
  · rcases hfront c hc with rfl | ⟨modifier, hmodifier, hc⟩
    · decide
    · exact hchain c ((infix_of_mem_modifiersOf hmodifier).1.subset hc)
  · rcases List.mem_cons.mp hc with rfl | hc
    · decide
    · exact not_blank_of_mem_words hword c hc

theorem trim_classText {depth : Nat} {attr : Attribute} {chain : Text}
    (hattr : attr.chain = some chain) (hchain : ∀ c ∈ chain, isBlank c = false) :
    trim (attr.classText depth) = attr.classText depth := by
  simp only [Attribute.classText, hattr]
  apply trim_joinWith
  · exact fun _ h => (solid_of_mem_classes hchain (List.mem_eraseDups.mp h)).1
  · exact fun _ h => (solid_of_mem_classes hchain (List.mem_eraseDups.mp h)).2

/-! ## Blocks -/

section Names

variable {name : AttributeName} {depth : Nat}

theorem trim_quotedText_expanded {attr : Attribute} (h : attr.WellFormed name) :
    trim (attr.expanded depth name.text).quotedText = attr.classText depth := by
  cases h with
  | plain hname hvalue hbody => rfl
  | @modified chain body value hchain hvalue hbody hspaces =>
    have hattr : Attribute.chain ⟨name.text, some chain, value⟩ = some chain := rfl
    exact trim_classText hattr fun c hc => (hchain.chars c hc).1

/-- Expanding a block and merging it gives what it becomes. -/
theorem merged_expanded {block : Block} (h : ∀ attr ∈ block.attrs, Block.Holds name attr) :
    (block.expanded depth name.text).merged name.text = block.transformed depth name.text := by
  have htexts : (block.expanded depth name.text).texts = block.classTexts depth := by
    rw [Block.texts, Block.attrs_expanded, List.map_map, Block.classTexts]
    congr 1
    exact List.map_congr_left fun attr hattr => trim_quotedText_expanded (h attr hattr).wellFormed
  have hmore : (block.expanded depth name.text).more.isEmpty = block.more.isEmpty := by
    simp [Block.expanded]
  rw [Block.merged, Block.transformed, hmore, htexts]
  cases hempty : block.more.isEmpty with
  | false => rfl
  | true =>
    have hnil := List.isEmpty_iff.mp hempty
    have hwritten : (block.expanded depth name.text).written =
        block.first.1 ++ (block.first.2.expanded depth name.text).written := by
      rw [Block.written_eq_of_more (by simp [Block.expanded, hnil])]
      rfl
    rw [hwritten, Attribute.expanded]
    cases hchain : block.first.2.chain.isNone with
    | true => exact (Block.written_eq_of_more hnil).symm
    | false => exact congrArg (block.first.1 ++ ·) (written_double name.text _)

/-- Expanding well-formed markup and merging it turns each of its blocks to what it becomes. -/
theorem merge_expand_written {markup : Markup}
    (hclass : ∀ other ∈ name.mergedNames, AttributeName.class_.text <+: other)
    (h : markup.WellFormed name) (depth : Nat) :
    (merge name (expand depth (.modified name.text) name.text ∅ markup.written).text).text =
      markup.transformed depth name.text := by
  obtain ⟨hexpanded, hplain⟩ := h.expanded depth
  calc
    (merge name (expand depth (.modified name.text) name.text ∅ markup.written).text).text
      = (merge name (markup.expanded depth name.text).written).text := by
      rw [expand_written hclass h]
    _ = markup.opening ++ partsWritten (Block.merged name.text)
          (markup.expanded depth name.text).parts := merge_written hclass hexpanded hplain
    _ = markup.transformed depth name.text := by
      rw [Markup.expanded, partsWritten_map, Markup.transformed]
      exact congrArg (markup.opening ++ ·) (partsWritten_congr fun part hpart =>
        merged_expanded (h.parts.blocks part hpart))

end Names

theorem Dialect.prefix_class (dialect : Dialect) :
    ∀ other ∈ dialect.attributeName.mergedNames, AttributeName.class_.text <+: other := by
  cases dialect with
  | class_ => decide
  | className => decide

/-- Transforming well-formed markup turns each of its blocks to what it becomes, and leaves
everything else as it is, in both dialects and whatever the depth. -/
theorem transform_written (options : Options) (dialect : Dialect) (markup : Markup)
    (h : markup.WellFormed dialect.attributeName) :
    (transform options dialect markup.written).code =
      markup.transformed options.maxDepth dialect.attributeName.text :=
  merge_expand_written dialect.prefix_class h options.maxDepth

/-- A block of a plain and a modified attribute becomes one attribute with all classes. -/
theorem transform_written_of_paragraph :
    let block : Block :=
      ⟨(" ".toList, ⟨"class".toList, none, .double " a b".toList⟩),
        [("\n ".toList, ⟨"class".toList, some "sm:hover".toList, .single "x".toList⟩)]⟩
    let markup : Markup := ⟨"<p".toList, [(block, ">text</p>".toList)]⟩
    markup.WellFormed AttributeName.class_ ∧
      (transform {} .class_ markup.written).code =
        "<p class=\"a b sm:hover:x sm:x hover:x\">text</p>".toList := by
  intro block markup
  have hall {p : Char → Bool} {text : Text} (h : text.all p = true) : ∀ c ∈ text, p c = true :=
    List.all_eq_true.mp h
  have hchain : IsChain "sm:hover".toList :=
    ⟨by decide, ⟨'s', by decide⟩,
      fun c hc => continuesChain_iff.mp (hall (by decide : _ = true) c hc)⟩
  have hfirst : IsPlainValue " a b".toList := ⟨by decide, by decide, by decide, by decide⟩
  have hsecond : IsPlainValue "x".toList := ⟨by decide, by decide, by decide, by decide⟩
  have hblock : ∀ attr ∈ block.attrs, Block.Holds AttributeName.class_ attr := by
    intro attr hattr
    rcases List.mem_cons.mp hattr with rfl | hattr
    · exact ⟨by decide, hall (by decide), .plain List.mem_cons_self rfl hfirst⟩
    · rw [List.mem_singleton.mp hattr]
      refine ⟨by decide, hall (by decide), .modified hchain rfl hsecond fun c hc hblank => ?_⟩
      rw [List.mem_singleton.mp hc] at hblank
      exact absurd hblank (by decide)
  have hmarkup : markup.WellFormed AttributeName.class_ := by
    refine ⟨by decide, ?_, ?_, ?_, by simp [markup]⟩
    · intro part hpart
      rw [List.mem_singleton.mp hpart]
      exact hblock
    · intro part hpart
      rw [List.mem_singleton.mp hpart]
      decide
    · intro part hpart
      rw [List.mem_singleton.mp hpart]
      exact fun c hc => .inr (.inl (Option.mem_some_iff.mp hc).symm)
  refine ⟨hmarkup, (transform_written {} .class_ markup hmarkup).trans ?_⟩
  decide +kernel

end VariantClasses
