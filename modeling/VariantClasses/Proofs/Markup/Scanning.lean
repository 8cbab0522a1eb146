import VariantClasses.Proofs.Markup.Basic

/-! # Scanning well-formed markup

A reader that needs the name `class` recognises nothing in the texts of well-formed
markup. So what a scan makes of markup follows from what it makes of a block with what can
stand behind one (`yields_parts`).
-/

namespace VariantClasses

open Text

theorem not_mem_of_isBlank {name : Text} (hname : isAttributeName name = true) {c : Char}
    (hc : isBlank c = true) : c ∉ name := by
  apply not_mem_of_isAttributeName hname
  rw [← Bool.not_eq_true]
  intro hcontinues
  rw [not_blank_of_continuesName hcontinues] at hc
  cases hc

theorem not_mem_of_endsAttribute {name rest : Text} (hname : isAttributeName name = true)
    (hrest : EndsAttribute rest) : ∀ c ∈ rest.head?, c ∉ name ++ [':'] := by
  intro c hc
  rw [List.mem_append, not_or]
  rcases hrest c hc with hblank | rfl | rfl
  · refine ⟨not_mem_of_isBlank hname hblank, fun hcolon => ?_⟩
    rw [List.mem_singleton.mp hcolon] at hblank
    exact absurd hblank (by decide)
  · exact ⟨not_mem_of_isAttributeName hname (by decide), by decide⟩
  · exact ⟨not_mem_of_isAttributeName hname (by decide), by decide⟩

theorem isNameless_of_blanks {blanks : Text} (h : ∀ c ∈ blanks, isBlank c = true) :
    IsNameless blanks := by
  apply isNameless_iff.mpr
  intro hpart
  have hc : 'c' ∈ blanks := hpart.subset (by decide)
  exact absurd (h 'c' hc) (by decide)

/-- What can stand behind a block: a text that ends it, and, when the text is not blank,
another block. -/
structure Behind (text after : Text) : Prop where
  nameless : IsNameless text
  ends : EndsAttribute text
  goesOn : after = [] ∨ (∃ c ∈ text, isBlank c = false) ∧ ∀ c ∈ after.head?, isBlank c = true

section Behind

variable {text after : Text} (h : Behind text after)

include h

theorem Behind.ends_append : EndsAttribute (text ++ after) := by
  cases text with
  | cons d text => exact h.ends
  | nil =>
    rcases h.goesOn with rfl | ⟨⟨c, hc, -⟩, -⟩
    · exact h.ends
    · cases hc

/-- No attribute stands next to a block. -/
theorem Behind.nameless_dropWhile :
    ¬AttributeName.class_.text <+: (text ++ after).dropWhile isBlank := by
  have hnameless := isNameless_iff.mp h.nameless
  intro hstart
  apply hnameless
  refine List.IsInfix.trans ?_ (List.dropWhile_suffix isBlank).isInfix
  rcases h.goesOn with rfl | ⟨⟨c, hc, hsolid⟩, hafter⟩
  · rw [List.append_nil] at hstart
    exact hstart.isInfix
  · -- The text is not blank, so the next block is out of reach.
    have hne : (text.dropWhile isBlank).isEmpty = false := by
      rw [List.isEmpty_eq_false_iff]
      intro hnil
      have hsplit := List.takeWhile_append_dropWhile (p := isBlank) (l := text)
      rw [hnil, List.append_nil] at hsplit
      rw [← hsplit] at hc
      rw [List.all_eq_true.mp List.all_takeWhile c hc] at hsolid
      cases hsolid
    rw [List.dropWhile_append, hne] at hstart
    cases after with
    | nil => simpa using hstart.isInfix
    | cons d after =>
      have hd : d ∉ AttributeName.class_.text :=
        not_mem_of_isBlank AttributeName.class_.plain (hafter d rfl)
      exact (prefix_of_prefix_append_cons hd hstart).isInfix

end Behind

section Parts

variable {name : AttributeName} {part : Block × Text} {parts : List (Block × Text)}

theorem PartsWellFormed.tail (h : PartsWellFormed name (part :: parts)) :
    PartsWellFormed name parts where
  blocks other hother := h.blocks other (List.mem_cons_of_mem _ hother)
  nameless other hother := h.nameless other (List.mem_cons_of_mem _ hother)
  ends other hother := h.ends other (List.mem_cons_of_mem _ hother)
  between other hother := by
    cases parts with
    | nil => cases hother
    | cons second parts =>
      apply h.between other
      rw [List.dropLast_cons_of_ne_nil (List.cons_ne_nil second parts)]
      exact List.mem_cons_of_mem _ hother

/-- A text is not blank when another block follows it. -/
theorem PartsWellFormed.exists_solid (h : PartsWellFormed name (part :: parts)) (hne : parts ≠ []) :
    ∃ c ∈ part.2, isBlank c = false := by
  apply h.between
  rw [List.dropLast_cons_of_ne_nil hne]
  exact List.mem_cons_self

theorem PartsWellFormed.cons (hblock : ∀ attr ∈ part.1.attrs, Block.Holds name attr)
    (hnameless : IsNameless part.2) (hends : EndsAttribute part.2)
    (hsolid : parts ≠ [] → ∃ c ∈ part.2, isBlank c = false) (h : PartsWellFormed name parts) :
    PartsWellFormed name (part :: parts) where
  blocks := List.forall_mem_cons.mpr ⟨hblock, h.blocks⟩
  nameless := List.forall_mem_cons.mpr ⟨hnameless, h.nameless⟩
  ends := List.forall_mem_cons.mpr ⟨hends, h.ends⟩
  between := by
    cases parts with
    | nil => simp
    | cons second parts =>
      rw [List.dropLast_cons_of_ne_nil (List.cons_ne_nil second parts)]
      exact List.forall_mem_cons.mpr ⟨hsolid (List.cons_ne_nil second parts), h.between⟩

theorem Block.Holds.exists_eq_cons {attr : Text × Attribute} (h : Block.Holds name attr) :
    ∃ c blanks, attr.1 = c :: blanks ∧ isBlank c = true := by
  cases hattr : attr.1 with
  | nil => exact absurd hattr h.separated
  | cons c blanks => exact ⟨c, blanks, rfl, h.blanks c (hattr ▸ List.mem_cons_self)⟩

/-- The last of the blanks before an attribute is its boundary. -/
theorem Block.Holds.exists_eq_append {attr : Text × Attribute} (h : Block.Holds name attr) :
    ∃ front c, attr.1 = front ++ [c] ∧ isBlank c = true ∧ IsNameless front := by
  rcases List.eq_nil_or_concat attr.1 with hnil | ⟨front, c, hconcat⟩
  · exact absurd hnil h.separated
  · rw [List.concat_eq_append] at hconcat
    have hblanks := h.blanks
    rw [hconcat] at hblanks
    exact ⟨front, c, hconcat, hblanks c (by simp),
      isNameless_of_blanks fun d hd => hblanks d (List.mem_append_left _ hd)⟩

theorem PartsWellFormed.head_written (h : PartsWellFormed name parts) :
    ∀ c ∈ (partsWritten Block.written parts).head?, isBlank c = true := by
  cases parts with
  | nil => simp [partsWritten]
  | cons part parts =>
    obtain ⟨c, blanks, hfirst, hc⟩ :=
      (h.blocks part List.mem_cons_self part.1.first List.mem_cons_self).exists_eq_cons
    simp [partsWritten, Block.written, Block.attrs, followersWritten, hfirst, hc]

theorem PartsWellFormed.behind (h : PartsWellFormed name (part :: parts)) :
    Behind part.2 (partsWritten Block.written parts) where
  nameless := h.nameless part List.mem_cons_self
  ends := h.ends part List.mem_cons_self
  goesOn := by
    cases parts with
    | nil => exact .inl rfl
    | cons second parts =>
      exact .inr ⟨h.exists_solid (List.cons_ne_nil second parts), h.tail.head_written⟩

end Parts

section Scanning

variable {α β : Type} {reader : Reader α} {value : Piece α → List β}
  (hkey : reader.NeedsKey AttributeName.class_.text)

include hkey

/-- Nothing is recognised in texts. -/
theorem passesOver_nameless {text rest : Text} (htext : IsNameless text)
    (hrest : ∀ c ∈ rest.head?, isBlank c = true) (atStart : Bool) :
    reader.PassesOver atStart text rest := by
  apply hkey.passesOver (isNameless_iff.mp htext)
  intro c hc
  exact not_mem_of_isBlank AttributeName.class_.plain (hrest c hc)

theorem yields_parts {name : AttributeName} {blockValue : Block → List β}
    {parts : List (Block × Text)} (hparts : PartsWellFormed name parts)
    (hblock : ∀ part ∈ parts, ∀ atStart text after, Behind text after →
      reader.Yields value atStart part.1.written (text ++ after) (blockValue part.1))
    (atStart : Bool) :
    reader.Yields value atStart (partsWritten Block.written parts) []
      (parts.flatMap fun part =>
        blockValue part.1 ++ part.2.flatMap fun c => value (.other c)) := by
  induction parts generalizing atStart with
  | nil => exact (Reader.passesOver_nil atStart []).yields
  | cons part parts ih =>
    have hfirst := hblock part List.mem_cons_self atStart part.2 _ hparts.behind
    have htext (start : Bool) : reader.PassesOver start part.2 (partsWritten Block.written parts) :=
      passesOver_nameless hkey (hparts.nameless part List.mem_cons_self) hparts.tail.head_written
        start
    have hrest := ih hparts.tail fun other hother => hblock other (List.mem_cons_of_mem _ hother)
    rw [partsWritten_cons, List.flatMap_cons, List.append_assoc]
    refine Reader.Yields.append ?_ (Reader.Yields.append ?_ (hrest _))
    · rwa [List.append_nil]
    · rw [List.append_nil]
      exact (htext _).yields

/-- Markup is scanned block by block. -/
theorem flatMap_cut_written {name : AttributeName} {blockValue : Block → List β}
    {markup : Markup} (h : markup.WellFormed name)
    (hblock : ∀ part ∈ markup.parts, ∀ atStart text after, Behind text after →
      reader.Yields value atStart part.1.written (text ++ after) (blockValue part.1)) :
    (reader.cut true markup.written).flatMap value =
      (markup.opening.flatMap fun c => value (.other c)) ++ markup.parts.flatMap fun part =>
        blockValue part.1 ++ part.2.flatMap fun c => value (.other c) := by
  refine Reader.Yields.flatMap_cut (Reader.Yields.append ?_ (yields_parts hkey h.parts hblock _))
  rw [List.append_nil]
  exact (passesOver_nameless hkey h.opening h.parts.head_written true).yields

theorem rewrites_nameless {replacement : α → Text} {text rest : Text} (htext : IsNameless text)
    (hrest : ∀ c ∈ rest.head?, isBlank c = true) (atStart : Bool) :
    reader.Rewrites replacement atStart text rest text :=
  (passesOver_nameless hkey htext hrest atStart).rewrites

/-- Scanned markup is turned block by block, and its texts stay. -/
theorem replaceAll_markup_written {replacement : α → Text} {name : AttributeName}
    {blockText : Block → Text} {markup : Markup} (h : markup.WellFormed name)
    (hblock : ∀ part ∈ markup.parts, ∀ atStart text after, Behind text after →
      reader.Rewrites replacement atStart part.1.written (text ++ after) (blockText part.1)) :
    reader.replaceAll replacement markup.written =
      markup.opening ++ partsWritten blockText markup.parts := by
  have hstays (text : Text) :
      (text.flatMap fun c => Piece.replaced replacement (.other c)) = text :=
    List.flatMap_singleton' text
  rw [Reader.replaceAll_eq_flatMap, flatMap_cut_written hkey h hblock, hstays, partsWritten]
  simp only [hstays]

/-- What a scan of markup recognises, it recognises in the blocks. -/
theorem map_findAll_written {f : α → β} {name : AttributeName} (blockFound : Block → List β)
    {markup : Markup} (h : markup.WellFormed name)
    (hblock : ∀ part ∈ markup.parts, ∀ atStart text after, Behind text after →
      reader.Yields (Piece.image f) atStart part.1.written (text ++ after) (blockFound part.1)) :
    (reader.findAll markup.written).map f = markup.parts.flatMap fun part => blockFound part.1 := by
  rw [Reader.map_findAll, flatMap_cut_written hkey h hblock, Piece.flatMap_image_other,
    List.nil_append]
  simp only [Piece.flatMap_image_other, List.append_nil]

end Scanning

end VariantClasses
