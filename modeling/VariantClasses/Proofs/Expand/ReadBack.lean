import VariantClasses.Proofs.Expand.Agreement

/-! # Reading expanded attributes back

An expanded attribute is written between double quotes. It reads back as one attribute
that names its classes exactly when no double quote stands in the value it was expanded
from, which a single-quoted value may hold.
-/

namespace VariantClasses

open Text

/-- The text reads as one plain attribute of a name, from its first to its last character,
with a quoted value that has these pieces between spaces. -/
def ReadsAs (name text : Text) (classes : List Text) : Prop :=
  ∃ found body, (Pattern.plain name).occurrences text = [found] ∧ found.written = text ∧
    found.attr.value.quotedBody? = some body ∧ (body.splitOn ' ').filter (!·.isEmpty) = classes

/-! ## Double-quoted attributes -/

section DoubleQuoted

variable {name body : Text}

theorem occurrences_doubleQuoted (hname : isAttributeName name = true) (hbody : '"' ∉ body) :
    (Pattern.plain name).occurrences (doubleQuoted name body) =
      [⟨[], ⟨name, none, .double body⟩⟩] := by
  rw [← written_double]
  exact Pattern.occurrences_written hname ⟨rfl, rfl, hbody⟩

/-- A double-quoted attribute reads back exactly when its quote does not stand in it. -/
theorem readsAs_doubleQuoted_iff (hname : isAttributeName name = true) {classes : List Text}
    (hclasses : (body.splitOn ' ').filter (!·.isEmpty) = classes) :
    ReadsAs name (doubleQuoted name body) classes ↔ '"' ∉ body := by
  constructor
  · intro h
    obtain ⟨found, quoted, hfound, hwritten, hquoted, -⟩ := h
    have hmem : found ∈ (Pattern.plain name).occurrences (doubleQuoted name body) := by
      rw [hfound]
      exact List.mem_singleton_self found
    have hvalue : found.attr.value.written = '"' :: (body ++ ['"']) :=
      Pattern.value_written_of_mem_occurrences hname hmem (by simp [hwritten, doubleQuoted])
    have hclosed := (Pattern.admits_of_mem_occurrences hname hmem).2.2
    cases hcase : found.attr.value with
    | double inner =>
      rw [hcase] at hvalue hclosed
      have hinner : inner = body := by simpa [Value.written] using hvalue
      exact hinner ▸ hclosed
    | single inner => simp [hcase, Value.written] at hvalue
    | braced inner => simp [hcase, Value.written] at hvalue
  · intro hbody
    refine ⟨_, body, occurrences_doubleQuoted hname hbody, ?_, rfl, hclasses⟩
    simp [Occurrence.written, written_double]

end DoubleQuoted

/-! ## Expanded attributes -/

theorem exists_mem_tokens_iff {value : Text} {c : Char} (hc : isBlank c = false) :
    (∃ token ∈ tokens value, c ∈ token) ↔ c ∈ value := by
  constructor
  · intro h
    obtain ⟨token, htoken, hmem⟩ := h
    obtain ⟨⟨piece, hpiece, rfl⟩, -⟩ := mem_tokens_iff.mp htoken
    exact (infix_of_mem_splitOn hpiece).subset ((trim_isInfix piece).subset hmem)
  · intro hmem
    have hjoined : c ∈ joinWith [' '] (value.splitOn ' ') := by
      rwa [joinWith, List.intercalate_splitOn]
    rcases mem_joinWith hjoined with hspace | ⟨piece, hpiece, hmem⟩
    · rw [List.mem_singleton.mp hspace] at hc
      exact absurd hc (by decide)
    · obtain ⟨before, after, htrim, hbefore, hafter⟩ := exists_eq_append_trim piece
      have htoken : c ∈ trim piece := by
        rw [htrim, List.mem_append, List.mem_append] at hmem
        rcases hmem with hmem | hmem | hmem
        · rw [hbefore c hmem] at hc
          cases hc
        · exact hmem
        · rw [hafter c hmem] at hc
          cases hc
      exact ⟨_, mem_tokens_iff.mpr ⟨⟨piece, hpiece, rfl⟩, List.ne_nil_of_mem htoken⟩, htoken⟩

section Expanded

variable {name text : Text} (hname : isAttributeName name = true) {found : Occurrence}
  (hfound : found ∈ (Pattern.modified name).occurrences text) {depth : Nat}

include hname hfound

theorem doubleQuote_mem_joinWith_writtenClasses_iff :
    '"' ∈ joinWith [' '] (found.attr.writtenClasses depth) ↔ '"' ∈ found.attr.quotedText := by
  have hvariant {token class_ : Text} (h : class_ ∈ variants depth found.attr.modifiers token) :
      '"' ∈ class_ ↔ '"' ∈ token :=
    mem_iff_of_mem_variants hname hfound (by decide) (by decide) h
  refine Iff.trans ?_ (exists_mem_tokens_iff (by decide : isBlank '"' = false))
  constructor
  · intro h
    rcases mem_joinWith h with hspace | ⟨class_, hclass, hquote⟩
    · exact absurd hspace (by decide)
    · obtain ⟨token, htoken, hmem⟩ := mem_writtenClasses_iff.mp hclass
      exact ⟨token, htoken, (hvariant hmem).mp hquote⟩
  · intro h
    obtain ⟨token, htoken, hquote⟩ := h
    have hmem : underModifier (joinWith [':'] found.attr.modifiers) token ∈
        variants depth found.attr.modifiers token := List.mem_cons_self
    have hclass := mem_writtenClasses_iff.mpr ⟨token, htoken, hmem⟩
    exact mem_joinWith_of_mem hclass ((hvariant hmem).mpr hquote)

end Expanded

/-- Every modified attribute is replaced by its lead and an attribute, and that attribute
reads back as one whose pieces are the generated classes in order, exactly when no double
quote stands in the value. -/
theorem expand_reads_back_iff (name : AttributeName) (depth : Nat) (produced : ClassSet)
    (text : Text) :
    let modified := Pattern.modified name.text
    let rewritten (found : Occurrence) : Text :=
      doubleQuoted name.text (joinWith [' '] (found.attr.writtenClasses depth))
    ∃ pieces : List (Piece Occurrence),
      pieces.flatMap modified.reader.pieceWritten = text ∧
      pieces.filterMap Piece.found? = modified.occurrences text ∧
      (expand depth modified name.text produced text).text =
        pieces.flatMap (Piece.replaced fun found =>
          if found.attr.modifiers = [] then found.written else found.lead ++ rewritten found) ∧
      ∀ found ∈ modified.occurrences text, found.attr.modifiers ≠ [] →
        (ReadsAs name.text (rewritten found) (found.attr.generatedClasses depth) ↔
          '"' ∉ found.attr.quotedText) := by
  intro modified rewritten
  refine ⟨modified.reader.cut true text, modified.reader.cut_written true text, rfl, ?_, ?_⟩
  · exact expand_text depth modified name.text produced text
  · intro found hfound _
    have hpieces := filter_splitOn_writtenClasses name.plain hfound depth
    rw [writtenClasses_eq_generatedClasses] at hpieces
    refine (readsAs_doubleQuoted_iff name.plain ?_).trans
      (not_congr (doubleQuote_mem_joinWith_writtenClasses_iff name.plain hfound))
    rwa [writtenClasses_eq_generatedClasses]

/-- An arbitrary value with double quotes, which single quotes around it allow, is written
as an attribute that ends inside it. -/
theorem not_readsAs_of_content_value :
    let name := AttributeName.class_.text
    let value := "content-[\"x\"]".toList
    let found : Occurrence := ⟨[' '], name, some "hover".toList, .single value⟩
    let text := "<p class:hover='content-[\"x\"]'>".toList
    found ∈ (Pattern.modified name).occurrences text ∧ found.attr.modifiers ≠ [] ∧
      (expand defaultDepth (.modified name) name ∅ text).text =
        "<p class=\"hover:content-[\"x\"]\">".toList ∧
      ¬ReadsAs name
        (doubleQuoted name (joinWith [' '] (found.attr.writtenClasses defaultDepth)))
        (found.attr.generatedClasses defaultDepth) := by
  intro name value found text
  refine ⟨by decide +kernel, by decide, by decide +kernel, ?_⟩
  have hpieces : ((joinWith [' '] (found.attr.writtenClasses defaultDepth)).splitOn ' ').filter
      (!·.isEmpty) = found.attr.generatedClasses defaultDepth := by decide +kernel
  rw [readsAs_doubleQuoted_iff AttributeName.class_.plain hpieces]
  decide +kernel

end VariantClasses
