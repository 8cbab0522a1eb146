import VariantClasses.Proofs.Attribute.Reading
import VariantClasses.Proofs.Merge.Shares

/-! # Static attributes that read back

Merged static text is written between double quotes, single quotes or the backticks of a
template literal in braces, by what stands in it. It reads back from the attribute exactly
when quotes can enclose it or its braces nest no deeper than a braced value allows
(`staticAttribute_reads_back_iff`).
-/

namespace VariantClasses

open Text

/-- The text reads as one plain attribute of a name, from its first to its last character,
whose value encloses this literal. -/
def ReadsBack (name text literal : Text) : Prop :=
  ∃ found, (Pattern.plain name).occurrences text = [found] ∧ found.written = text ∧
    found.attr.value.enclosed? = some literal

/-! ## Values as they are written -/

theorem Value.eq_of_written_eq {value other : Value} (h : value.written = other.written) :
    value = other := by
  cases value with
  | double body => cases other <;> simp_all [written]
  | single body => cases other <;> simp_all [written]
  | braced body => cases other <;> simp_all [written]

/-- An attribute reads back when its value does not end early. -/
theorem readsBack_written_iff {name literal : Text} (hname : isAttributeName name = true)
    {value : Value} : ReadsBack name (Attribute.written ⟨name, none, value⟩) literal ↔
      value.IsClosed ∧ value.enclosed? = some literal := by
  constructor
  · intro h
    obtain ⟨found, hfound, hwritten, hliteral⟩ := h
    have hmem : found ∈ (Pattern.plain name).occurrences
        (Attribute.written ⟨name, none, value⟩) := by
      rw [hfound]
      exact List.mem_singleton_self found
    obtain rfl : found.attr.value = value := Value.eq_of_written_eq
      (Pattern.value_written_of_mem_occurrences hname hmem (by simp [hwritten, Attribute.written]))
    exact ⟨(Pattern.admits_of_mem_occurrences hname hmem).2.2, hliteral⟩
  · intro h
    obtain ⟨hclosed, hliteral⟩ := h
    have hadmits : (Pattern.plain name).Admits ⟨name, none, value⟩ := ⟨rfl, rfl, hclosed⟩
    exact ⟨_, Pattern.occurrences_written hname hadmits, by simp [Occurrence.written], hliteral⟩

/-! ## Template literals -/

theorem templateBody?_templateLiteral (body : Text) :
    templateBody? (templateLiteral body) = some body := by
  apply templateBody?_eq_some_iff.mpr
  apply trim_eq_self
  · intro c hc
    obtain rfl : '`' = c := by simpa [templateLiteral] using hc
    decide
  · intro c hc
    have hlast : (templateLiteral body).getLast? = some '`' :=
      List.getLast?_concat (l := '`' :: body)
    obtain rfl : '`' = c := Option.some.inj (hlast.symm.trans hc)
    decide

/-- A character that is no brace changes nothing at the end of a text. -/
theorem nestsFrom_concat_iff {nesting : Nat} {text : Text} {c : Char} (hopen : c ≠ '\x7b')
    (hclose : c ≠ '\x7d') : NestsFrom nesting (text ++ [c]) ↔ NestsFrom nesting text := by
  have hcount {brace : Char} (h : c ≠ brace) : (text ++ [c]).count brace = text.count brace := by
    simp [h]
  constructor
  · intro h
    exact ⟨fun front hfront => h.closing front (hfront.trans (List.prefix_append _ _)),
      fun front hfront => h.opening front (hfront.trans (List.prefix_append _ _)),
      by simpa only [hcount hopen, hcount hclose] using h.closed⟩
  · intro h
    refine ⟨fun front hfront => ?_, fun front hfront => ?_, ?_⟩
    · rcases List.prefix_concat_iff.mp hfront with rfl | hfront
      · simpa only [hcount hopen, hcount hclose] using h.closing text (List.prefix_refl _)
      · exact h.closing front hfront
    · rcases List.prefix_concat_iff.mp hfront with rfl | hfront
      · simpa only [hcount hopen, hcount hclose] using h.opening text (List.prefix_refl _)
      · exact h.opening front hfront
    · simpa only [hcount hopen, hcount hclose] using h.closed

/-- Backticks around a text change nothing about its braces. -/
theorem nestsFrom_templateLiteral_iff {body : Text} :
    NestsFrom 0 (templateLiteral body) ↔ NestsFrom 0 body := by
  have hfirst : 0 + ['`'].count '\x7b' = 0 + ['`'].count '\x7d' := by decide
  rw [templateLiteral, nestsFrom_cons_iff hfirst, nestsFrom_concat_iff (by decide) (by decide)]
  simp

/-! ## Static attributes -/

/-- Static text stands in a template literal for its interpolations or both kinds of quote,
and else between quotes that do not stand in it. -/
theorem staticAttribute_cases (name classes : Text) :
    ∃ value : Value, staticAttribute name classes = Attribute.written ⟨name, none, value⟩ ∧
      value.enclosed? = some classes ∧
      (((interpolation <:+: classes ∨ ('"' ∈ classes ∧ '\'' ∈ classes)) ∧
          value = .braced (templateLiteral classes)) ∨
        (¬(interpolation <:+: classes ∨ ('"' ∈ classes ∧ '\'' ∈ classes)) ∧
          value.IsClosed)) := by
  have htemplate : (includes interpolation classes ||
      (classes.contains '"' && classes.contains '\'')) = true ↔
        interpolation <:+: classes ∨ ('"' ∈ classes ∧ '\'' ∈ classes) := by
    simp [includes_iff_isInfix]
  rw [staticAttribute]
  split
  next h =>
    exact ⟨.braced (templateLiteral classes),
      by simp [expressionAttribute, Attribute.written, Value.written],
      templateBody?_templateLiteral classes, .inl ⟨htemplate.mp h, rfl⟩⟩
  next h =>
    have hquotes := mt htemplate.mpr h
    split
    next hdouble =>
      have hmem : '"' ∈ classes := by simpa using hdouble
      exact ⟨.single classes, by simp [Attribute.written, Value.written], rfl,
        .inr ⟨hquotes, fun hsingle => hquotes (.inr ⟨hmem, hsingle⟩)⟩⟩
    next hdouble =>
      have hmem : '"' ∉ classes := by simpa using hdouble
      exact ⟨.double classes, by simp [Attribute.written, Value.written], rfl,
        .inr ⟨hquotes, hmem⟩⟩

/-- Merged static text reads back from its attribute exactly when it holds no interpolation
and not both kinds of quote, or when its braces are balanced and nest at most two deep. -/
theorem staticAttribute_reads_back_iff (name : AttributeName) (classes : Text) :
    ReadsBack name.text (staticAttribute name.text classes) classes ↔
      (¬interpolation <:+: classes ∧ ¬('"' ∈ classes ∧ '\'' ∈ classes)) ∨
        NestsFrom 0 classes := by
  obtain ⟨value, hwritten, hliteral, ⟨htemplate, rfl⟩ | ⟨hquotes, hclosed⟩⟩ :=
    staticAttribute_cases name.text classes
  · rw [hwritten, readsBack_written_iff name.plain, ← not_or]
    constructor
    · intro h
      exact .inr (nestsFrom_templateLiteral_iff.mp h.1)
    · intro h
      have hnests := h.resolve_left fun hquotes => hquotes htemplate
      exact ⟨nestsFrom_templateLiteral_iff.mpr hnests, hliteral⟩
  · rw [hwritten, readsBack_written_iff name.plain, ← not_or]
    exact iff_of_true ⟨hclosed, hliteral⟩ (.inl hquotes)

end VariantClasses
