import Mathlib.Data.List.Basic
import VariantClasses.Proofs.Expand.Agreement

/-! # More depth

The depth bounds how many modifiers of a chain are also used alone, so a text names and
records at a depth every class that it does at a smaller one. What is added are tokens under
one later modifier of a longer chain, and nothing once the depth reaches the length of every
chain (`deeper_adds_later_modifiers`).
-/

namespace VariantClasses

open Text

/-! ## Variants -/

section Variants

variable {depth deeper : Nat} {modifiers : List Text} {token class_ : Text}

theorem mem_variants_iff : class_ ∈ variants depth modifiers token ↔
    class_ = underModifier (joinWith [':'] modifiers) token ∨
      (1 < modifiers.length ∧ ∃ i modifier, i < depth ∧ modifiers[i]? = some modifier ∧
        class_ = underModifier modifier token) := by
  rw [variants, List.mem_cons]
  apply or_congr_right
  split
  next hlength =>
    rw [and_iff_right hlength, List.mem_map]
    constructor
    · rintro ⟨modifier, hmem, rfl⟩
      obtain ⟨i, hi⟩ := List.mem_iff_getElem?.mp hmem
      rw [List.getElem?_take, Option.ite_none_right_eq_some] at hi
      exact ⟨i, modifier, hi.1, hi.2, rfl⟩
    · rintro ⟨i, modifier, hi, hmodifier, rfl⟩
      refine ⟨modifier, List.mem_iff_getElem?.mpr ⟨i, ?_⟩, rfl⟩
      rw [List.getElem?_take_of_lt hi, hmodifier]
  next hlength => simp [hlength]

theorem variants_mono (h : depth ≤ deeper) (hclass : class_ ∈ variants depth modifiers token) :
    class_ ∈ variants deeper modifiers token := by
  rw [mem_variants_iff] at hclass ⊢
  apply hclass.imp_right
  rintro ⟨hlength, i, modifier, hi, hmodifier⟩
  exact ⟨hlength, i, modifier, Nat.lt_of_lt_of_le hi h, hmodifier⟩

/-- A class that only more depth gives is the token under one of the later modifiers. -/
theorem exists_later_of_mem_variants (hclass : class_ ∈ variants deeper modifiers token)
    (hnot : class_ ∉ variants depth modifiers token) :
    1 < modifiers.length ∧ ∃ i modifier, depth ≤ i ∧ modifiers[i]? = some modifier ∧
      class_ = underModifier modifier token := by
  rw [mem_variants_iff, not_or] at hnot
  obtain ⟨hlength, i, modifier, -, hmodifier, rfl⟩ :=
    (mem_variants_iff.mp hclass).resolve_left hnot.1
  refine ⟨hlength, i, modifier, Nat.le_of_not_lt fun hi => ?_, hmodifier, rfl⟩
  exact hnot.2 ⟨hlength, i, modifier, hi, hmodifier, rfl⟩

/-- Depth beyond the length of the chain gives nothing new. -/
theorem variants_eq_of_length_le (hlength : modifiers.length ≤ depth) (h : depth ≤ deeper) :
    variants depth modifiers = variants deeper modifiers := by
  funext token
  rw [variants, variants, List.take_of_length_le hlength,
    List.take_of_length_le (Nat.le_trans hlength h)]

end Variants

/-! ## What more depth adds -/

/-- A token under one modifier of an attribute alone, at index `depth` of its chain or later,
where the chain has more than one. -/
def Attribute.IsLaterVariant (depth : Nat) (attr : Attribute) (token class_ : Text) : Prop :=
  1 < attr.modifiers.length ∧ ∃ i modifier, depth ≤ i ∧ attr.modifiers[i]? = some modifier ∧
    class_ = modifier ++ ':' :: token

/-- The deeper set holds all classes of the other, and beyond them only those with a
property. -/
structure ClassSet.GrowsBy (classes deeper : ClassSet) (added : Text → Prop) : Prop where
  kept : ∀ class_ ∈ classes, class_ ∈ deeper
  added : ∀ class_ ∈ deeper, class_ ∉ classes → added class_

/-- A set of classes that come from the variants of tokens, or do not hang on the depth, grows
with the depth by later variants. -/
theorem growsBy_of_mem_iff {depth deeper : Nat} (h : depth ≤ deeper) {occurrences : List Occurrence}
    {tokensOf : Attribute → List Text} (classes : Nat → ClassSet) (base : Text → Prop)
    (source : Attribute → Text → Text → Prop)
    (hclasses : ∀ depth class_, class_ ∈ classes depth ↔ base class_ ∨
      ∃ found ∈ occurrences, ∃ token, source found.attr token class_ ∧
        class_ ∈ variants depth found.attr.modifiers token)
    (hsource : ∀ attr token class_, source attr token class_ → token ∈ tokensOf attr) :
    (classes depth).GrowsBy (classes deeper) fun class_ => ∃ found ∈ occurrences,
      ∃ token ∈ tokensOf found.attr, found.attr.IsLaterVariant depth token class_ := by
  constructor
  · intro class_ hclass
    rw [hclasses] at hclass ⊢
    apply hclass.imp_right
    rintro ⟨found, hfound, token, htoken, hvariant⟩
    exact ⟨found, hfound, token, htoken, variants_mono h hvariant⟩
  · intro class_ hclass hnot
    rw [hclasses, not_or] at hnot
    obtain ⟨found, hfound, token, htoken, hvariant⟩ :=
      ((hclasses deeper class_).mp hclass).resolve_left hnot.1
    have hlater := exists_later_of_mem_variants hvariant fun hshallow =>
      hnot.2 ⟨found, hfound, token, htoken, hshallow⟩
    exact ⟨found, hfound, token, hsource _ _ _ htoken, hlater⟩

theorem mem_collect_all_iff {depth : Nat} {plain modified : Pattern} {text class_ : Text} :
    class_ ∈ (collect depth plain modified text).all ↔
      (∃ found ∈ plain.occurrences text, class_ ∈ found.attr.plainClasses) ∨
        class_ ∈ (collect depth plain modified text).variants := by
  simp [collect]

section Depth

variable {depth deeper : Nat} (h : depth ≤ deeper) (plain modified : Pattern) (text : Text)

include h

theorem collect_variants_growsBy :
    (collect depth plain modified text).variants.GrowsBy
      (collect deeper plain modified text).variants fun class_ =>
        ∃ found ∈ modified.occurrences text, ∃ token ∈ words found.attr.quotedText,
          found.attr.IsLaterVariant depth token class_ := by
  refine growsBy_of_mem_iff h (fun depth => (collect depth plain modified text).variants)
    (fun _ => False) (fun attr token _ => attr.modifiers ≠ [] ∧ token ∈ words attr.quotedText)
    (fun depth class_ => ?_) fun _ _ _ => And.right
  rw [mem_collected_iff, false_or]
  simp only [Attribute.Generates, and_assoc]

/-- The classes of plain attributes do not hang on the depth. -/
theorem collect_all_growsBy :
    (collect depth plain modified text).all.GrowsBy
      (collect deeper plain modified text).all fun class_ =>
        ∃ found ∈ modified.occurrences text, ∃ token ∈ words found.attr.quotedText,
          found.attr.IsLaterVariant depth token class_ := by
  refine growsBy_of_mem_iff h (fun depth => (collect depth plain modified text).all)
    (fun class_ => ∃ found ∈ plain.occurrences text, class_ ∈ found.attr.plainClasses)
    (fun attr token _ => attr.modifiers ≠ [] ∧ token ∈ words attr.quotedText)
    (fun depth class_ => ?_) fun _ _ _ => And.right
  rw [mem_collect_all_iff, mem_collected_iff]
  simp only [Attribute.Generates, and_assoc]

theorem expand_produced_growsBy (name : Text) (produced : ClassSet) :
    (expand depth modified name produced text).produced.GrowsBy
      (expand deeper modified name produced text).produced fun class_ =>
        ∃ found ∈ modified.occurrences text, ∃ token ∈ tokens found.attr.quotedText,
          found.attr.IsLaterVariant depth token class_ := by
  refine growsBy_of_mem_iff h (fun depth => (expand depth modified name produced text).produced)
    (· ∈ produced) (fun attr token class_ =>
      attr.modifiers ≠ [] ∧ token ∈ tokens attr.quotedText ∧ isRecorded class_ token = true)
    (fun depth class_ => ?_) fun _ _ _ hsource => hsource.2.1
  rw [mem_expand_produced_iff]
  refine or_congr_right (exists_congr fun found => and_congr_right fun _ => ?_)
  constructor
  · rintro ⟨hne, token, htoken, hvariant, hrecorded⟩
    exact ⟨token, ⟨hne, htoken, hrecorded⟩, hvariant⟩
  · rintro ⟨token, ⟨hne, htoken, hrecorded⟩, hvariant⟩
    exact ⟨hne, token, htoken, hvariant, hrecorded⟩

variable (hlength : ∀ found ∈ modified.occurrences text, found.attr.modifiers.length ≤ depth)

include hlength

theorem collect_eq_of_length_le :
    collect depth plain modified text = collect deeper plain modified text := by
  have hclasses : ((modified.occurrences text).flatMap fun found =>
      found.attr.variantClasses depth) = (modified.occurrences text).flatMap fun found =>
        found.attr.variantClasses deeper := by
    apply List.flatMap_congr
    intro found hfound
    rw [Attribute.variantClasses, Attribute.variantClasses,
      variants_eq_of_length_le (hlength found hfound) h]
  rw [collect, collect, hclasses]

theorem expand_eq_of_length_le (name : Text) (produced : ClassSet) :
    expand depth modified name produced text = expand deeper modified name produced text := by
  have hproduced : ∀ found ∈ modified.occurrences text,
      found.attr.produced depth = found.attr.produced deeper := by
    intro found hfound
    rw [Attribute.produced, Attribute.produced,
      variants_eq_of_length_le (hlength found hfound) h]
  have htext : modified.reader.replaceAll (Occurrence.expanded depth name) text =
      modified.reader.replaceAll (Occurrence.expanded deeper name) text := by
    apply Reader.replaceAll_congr
    intro found hfound
    rw [Occurrence.expanded, Occurrence.expanded, Attribute.writtenClasses,
      Attribute.writtenClasses, hproduced found hfound]
  have hrecorded : (modified.occurrences text).flatMap (Occurrence.recordedClasses depth) =
      (modified.occurrences text).flatMap (Occurrence.recordedClasses deeper) := by
    apply List.flatMap_congr
    intro found hfound
    rw [Occurrence.recordedClasses, Occurrence.recordedClasses, Attribute.recordedClasses,
      Attribute.recordedClasses, hproduced found hfound]
  rw [expand, expand, htext, hrecorded]

end Depth

/-- More depth drops no class. What it adds, to the classes of all attributes, to those of
modified attributes and to the recorded ones, are tokens under one modifier that stands at
the smaller depth or later in a chain with more than one. Once no chain is longer than the
smaller depth, more depth changes nothing, in what is collected, recorded and written. -/
theorem deeper_adds_later_modifiers (name : AttributeName) {depth deeper : Nat}
    (h : depth ≤ deeper) (output text : Text) (produced : ClassSet) :
    let modified := Pattern.modified name.text
    let collected (depth : Nat) := collect depth (.plain name.text) modified text
    let expanded (depth : Nat) := expand depth modified output produced text
    let isLater (tokensOf : Text → List Text) (class_ : Text) : Prop :=
      ∃ found ∈ modified.occurrences text, ∃ token ∈ tokensOf found.attr.quotedText,
        found.attr.IsLaterVariant depth token class_
    (collected depth).all.GrowsBy (collected deeper).all (isLater words) ∧
    (collected depth).variants.GrowsBy (collected deeper).variants (isLater words) ∧
    (expanded depth).produced.GrowsBy (expanded deeper).produced (isLater tokens) ∧
    ((∀ found ∈ modified.occurrences text, found.attr.modifiers.length ≤ depth) →
      collected depth = collected deeper ∧ expanded depth = expanded deeper) := by
  intro modified collected expanded isLater
  refine ⟨collect_all_growsBy h _ _ text, collect_variants_growsBy h _ _ text,
    expand_produced_growsBy h _ text output produced, fun hlength => ⟨?_, ?_⟩⟩
  · exact collect_eq_of_length_le h _ _ text hlength
  · exact expand_eq_of_length_le h _ text hlength output produced

/-- In a chain of three modifiers, a second depth adds the second modifier alone. -/
theorem deeper_adds_later_modifiers_of_three :
    let text := "<a class:a:b:c=\"x\">".toList
    let modified := Pattern.modified AttributeName.class_.text
    let recorded (depth : Nat) := (expand depth modified AttributeName.class_.text ∅ text).produced
    (1 ≤ 2 ∧ "a:x".toList ∈ recorded 1 ∧ "b:x".toList ∉ recorded 1) ∧
    ("a:x".toList ∈ recorded 2 ∧ "b:x".toList ∈ recorded 2) ∧
    ∃ found ∈ modified.occurrences text, ∃ token ∈ tokens found.attr.quotedText,
      found.attr.IsLaterVariant 1 token "b:x".toList := by
  intro text modified recorded
  have hfirst : "a:x".toList ∈ recorded 1 ∧ "b:x".toList ∉ recorded 1 := by decide +kernel
  have hsecond : "b:x".toList ∈ recorded 2 := by decide +kernel
  have hle : 1 ≤ 2 := by decide
  obtain ⟨-, -, hgrows, -⟩ :=
    deeper_adds_later_modifiers .class_ hle AttributeName.class_.text text ∅
  exact ⟨⟨hle, hfirst⟩, ⟨hgrows.kept _ hfirst.1, hsecond⟩, hgrows.added _ hsecond hfirst.2⟩

end VariantClasses
