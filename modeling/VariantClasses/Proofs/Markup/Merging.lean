import VariantClasses.Proofs.Markup.Occurrences
import VariantClasses.Proofs.Merge.Settling

/-! # Merging well-formed markup

The attributes of a block are one run, and what can stand behind a block does not belong to
it. So merging markup with plain attributes turns each block of two or more attributes to
one attribute and leaves everything else (`merge_written`).
-/

namespace VariantClasses

open Text

/-! ## Merged blocks -/

/-- The trimmed values of a block's attributes, without the empty ones. -/
def Block.texts (block : Block) : List Text :=
  (block.attrs.map fun attr => trim attr.2.quotedText).filter (!·.isEmpty)

/-- What a block of plain attributes is merged to. -/
def Block.merged (name : Text) (block : Block) : Text :=
  if block.more.isEmpty then block.written
  else if block.texts.isEmpty then block.first.1.dropLast
  else block.first.1 ++ doubleQuoted name (joinWith [' '] block.texts)

section Names

variable {name : AttributeName}

/-- A plain attribute of a block. -/
structure Block.HoldsPlain (name : AttributeName) (attr : Text × Attribute) : Prop
    extends Block.Holds name attr where
  plain : attr.2.chain = none

section HoldsPlain

variable {attr : Text × Attribute} (h : Block.HoldsPlain name attr)

include h

theorem Block.HoldsPlain.exists_value : ∃ other value body,
    attr.2 = ⟨other, none, value⟩ ∧ other ∈ name.mergedNames ∧
      value.quotedBody? = some body ∧ IsPlainValue body := by
  obtain ⟨blanks, other, chain, value⟩ := attr
  obtain ⟨⟨-, -, hwell⟩, rfl⟩ := h
  cases hwell with
  | plain hname hvalue hbody => exact ⟨other, value, _, rfl, hname, hvalue, hbody⟩

theorem Block.HoldsPlain.isPlainOf : attr.2.IsPlainOf name.mergedNames := by
  obtain ⟨other, value, body, hattr, hname, hvalue, hbody⟩ := h.exists_value
  rw [hattr]
  exact ⟨hname, rfl, hbody.isClosed hvalue⟩

theorem Block.HoldsPlain.follows : Follows name.mergedNames attr :=
  ⟨h.separated, h.blanks, h.isPlainOf⟩

theorem Block.HoldsPlain.share : attr.2.value.share = .literal (trim attr.2.quotedText) := by
  obtain ⟨other, value, body, hattr, -, hvalue, -⟩ := h.exists_value
  rw [hattr, share_of_quotedBody? hvalue, Attribute.quotedText, hvalue]
  rfl

end HoldsPlain

/-- One attribute alone is no run. -/
theorem read?_single {attr : Attribute} (hattr : attr.IsPlainOf name.mergedNames) {c : Char}
    (hc : isBlank c = true) {rest : Text} (hnone : follower? name.mergedNames rest = none)
    (atStart : Bool) :
    (runReader name.mergedNames).read? atStart (c :: (attr.written ++ rest)) = none := by
  have hnames := name.mergedNames_plain
  apply Option.eq_none_iff_forall_ne_some.mpr
  intro ⟨run, after⟩ hread
  obtain ⟨lead, first, second, tail, hlead, hfirst, hsecond, htext⟩ :=
    (exists_runReader_read?_iff hnames).mp ⟨run, after, hread⟩
  rcases hlead with ⟨-, rfl⟩ | ⟨d, -, rfl⟩
  · -- Without a boundary the attribute would start with the blank.
    have hblank : attributeOf? name.mergedNames (c :: (attr.written ++ rest)) = none :=
      attributeOf?_cons_of_blank hnames hc
    rw [htext, List.nil_append, (attributeOf?_eq_some_iff hnames).mpr ⟨hfirst, rfl⟩] at hblank
    cases hblank
  · rw [List.singleton_append] at htext
    obtain ⟨-, htail⟩ := List.cons.inj htext
    have hattrRead : attributeOf? name.mergedNames (attr.written ++ rest) = some (attr, rest) :=
      (attributeOf?_eq_some_iff hnames).mpr ⟨hattr, rfl⟩
    rw [htail, (attributeOf?_eq_some_iff hnames).mpr ⟨hfirst, rfl⟩] at hattrRead
    obtain ⟨-, hrest⟩ := Prod.mk.inj (Option.some.inj hattrRead)
    rw [← hrest, follower?_written_append hnames hsecond] at hnone
    cases hnone

section Blocks

variable {block : Block} (hattrs : ∀ attr ∈ block.attrs, Block.HoldsPlain name attr)

include hattrs

theorem doubleQuoted_texts : staticAttribute name.text (joinWith [' '] block.texts) =
    doubleQuoted name.text (joinWith [' '] block.texts) := by
  have hsource : ∀ text ∈ block.texts, ∃ attr ∈ block.attrs, text <:+: attr.2.quotedText := by
    intro text htext
    obtain ⟨attr, hattr, rfl⟩ := List.mem_map.mp (List.mem_filter.mp htext).1
    exact ⟨attr, hattr, trim_isInfix _⟩
  apply staticAttribute_eq_doubleQuoted
  · intro hquote
    rcases mem_joinWith hquote with hspace | ⟨text, htext, hmem⟩
    · exact absurd hspace (by decide)
    · obtain ⟨attr, hattr, hpart⟩ := hsource text htext
      exact (hattrs attr hattr).wellFormed.isPlainValue.double (hpart.subset hmem)
  · apply includes_eq_false_iff.mpr
    intro hjoined
    obtain ⟨text, htext, hpart⟩ := (infix_joinWith_iff (by decide) (by decide)).mp hjoined
    obtain ⟨attr, hattr, hsub⟩ := hsource text htext
    exact includes_eq_false_iff.mp (hattrs attr hattr).wellFormed.isPlainValue.interpolation
      (hpart.trans hsub)

theorem isOf_block (hmore : block.more ≠ []) (lead : Text) :
    Run.IsOf name.mergedNames ⟨lead, block.first.2, block.more⟩ where
  first := (hattrs block.first List.mem_cons_self).isPlainOf
  more_ne_nil := hmore
  more follower hfollower := (hattrs follower (List.mem_cons_of_mem _ hfollower)).follows

/-- A block is merged to an attribute with its texts, or to nothing when there are none. -/
theorem mergeRun_block (hmore : block.more ≠ []) {c : Char} (hc : isBlank c = true) :
    (mergeRun name ⟨[c], block.first.2, block.more⟩).1 =
      if block.texts.isEmpty then []
      else c :: doubleQuoted name.text (joinWith [' '] block.texts) := by
  have hshares : (Run.attrs ⟨[c], block.first.2, block.more⟩).map (fun attr => attr.value.share) =
      (block.attrs.map fun attr => trim attr.2.quotedText).map Share.literal := by
    have hattrsEq : Run.attrs ⟨[c], block.first.2, block.more⟩ = block.attrs.map Prod.snd := rfl
    rw [hattrsEq, List.map_map, List.map_map]
    exact List.map_congr_left fun attr hattr => (hattrs attr hattr).share
  have hlead : ∀ d ∈ (Run.mk [c] block.first.2 block.more).lead, isBlank d = true := by
    intro d hd
    rwa [List.mem_singleton.mp hd]
  have hmerged : mergeShares name.text ((block.attrs.map fun attr => trim attr.2.quotedText).map
      Share.literal) = if block.texts.isEmpty then (none, [])
        else (some (staticAttribute name.text (joinWith [' '] block.texts)), []) :=
    mergeShares_literals _ _
  rw [mergeRun_fst (isOf_block hattrs hmore [c]) hlead, hshares, hmerged]
  cases block.texts.isEmpty with
  | true => rfl
  | false => exact congrArg (c :: ·) (doubleQuoted_texts hattrs)

/-- The attributes of a block are one run. -/
theorem rewrites_run (hmore : block.more ≠ []) {rest : Text}
    (hkey : (runReader name.mergedNames).NeedsKey AttributeName.class_.text)
    (hnone : follower? name.mergedNames rest = none) (atStart : Bool) :
    (runReader name.mergedNames).Rewrites (fun run => (mergeRun name run).1) atStart
      block.written rest (block.merged name.text) := by
  obtain ⟨front, c, hblanks, hc, hfront⟩ :=
    (hattrs block.first List.mem_cons_self).exists_eq_append
  have hwritten : block.written = front ++ Run.written ⟨[c], block.first.2, block.more⟩ := by
    simp [Block.written, Block.attrs, followersWritten_cons, Run.written, hblanks]
  have hread (start : Bool) : (runReader name.mergedNames).read? start
      (Run.written ⟨[c], block.first.2, block.more⟩ ++ rest) =
        some (⟨[c], block.first.2, block.more⟩, rest) :=
    (runReader_read?_eq_some_iff name.mergedNames_plain).mpr
      ⟨.inr ⟨c, hc, rfl⟩, isOf_block hattrs hmore [c], hnone, rfl⟩
  have hmerged : block.merged name.text =
      front ++ (mergeRun name ⟨[c], block.first.2, block.more⟩).1 := by
    have hfalse : block.more.isEmpty = false := by simpa using hmore
    rw [Block.merged, hfalse, mergeRun_block hattrs hmore hc, hblanks]
    cases block.texts.isEmpty with
    | true => simp
    | false => simp
  rw [hwritten, hmerged]
  exact (rewrites_nameless hkey hfront (by simp [Run.written, hc]) atStart).append
    (Reader.rewrites_of_read (hread _))

end Blocks

variable (hname : ∀ other ∈ name.mergedNames, AttributeName.class_.text <+: other)

include hname

theorem follower?_eq_none {rest : Text}
    (h : ¬AttributeName.class_.text <+: rest.dropWhile isBlank) :
    follower? name.mergedNames rest = none := by
  apply Option.eq_none_iff_forall_ne_some.mpr
  intro ⟨follower, after⟩ hread
  apply h
  obtain ⟨⟨-, hblanks, hattr⟩, rfl⟩ := (follower?_eq_some_iff name.mergedNames_plain).mp hread
  obtain ⟨c, tail, hwritten, hc⟩ := not_blank_head_of_isPlainOf name.mergedNames_plain hattr
  have hstop : ¬isBlank c = true := by simp [hc]
  rw [List.append_assoc, List.dropWhile_append_of_pos hblanks, hwritten, List.cons_append,
    List.dropWhile_cons_of_neg hstop, ← List.cons_append, ← hwritten, Attribute.written,
    List.append_assoc]
  exact (hname _ hattr.1).trans (List.prefix_append _ _)

theorem runReader_needsKey_class :
    (runReader name.mergedNames).NeedsKey AttributeName.class_.text :=
  runReader_needsKey name.mergedNames_plain hname

/-- One attribute alone stays. -/
theorem rewrites_single {attr : Text × Attribute} (hattr : Block.HoldsPlain name attr)
    {rest : Text} (hrest : EndsAttribute rest) (hnone : follower? name.mergedNames rest = none)
    {replacement : Run → Text} (atStart : Bool) :
    (runReader name.mergedNames).Rewrites replacement atStart (attr.1 ++ attr.2.written) rest
      (attr.1 ++ attr.2.written) := by
  have hkey := runReader_needsKey_class hname
  obtain ⟨front, c, hblanks, hc, hfront⟩ := hattr.exists_eq_append
  rw [hblanks, List.append_assoc, List.singleton_append]
  refine (rewrites_nameless hkey hfront (by simp [hc]) atStart).append ?_
  apply Reader.PassesOver.rewrites
  exact passesOver_attribute hkey hattr.wellFormed hrest
    (read?_single hattr.isPlainOf hc hnone _)

/-- Merging markup with plain attributes merges its blocks. -/
theorem merge_written {markup : Markup} (h : markup.WellFormed name)
    (hplain : ∀ part ∈ markup.parts, ∀ attr ∈ part.1.attrs, attr.2.chain = none) :
    (merge name markup.written).text =
      markup.opening ++ partsWritten (Block.merged name.text) markup.parts := by
  apply replaceAll_markup_written (runReader_needsKey_class hname) h
  intro part hpart atStart text after hbehind
  have hattrs : ∀ attr ∈ part.1.attrs, Block.HoldsPlain name attr :=
    fun attr hattr => ⟨h.parts.blocks part hpart attr hattr, hplain part hpart attr hattr⟩
  have hnone := follower?_eq_none hname hbehind.nameless_dropWhile
  cases hmore : part.1.more with
  | nil =>
    rw [Block.merged, hmore, Block.written_eq_of_more hmore]
    exact rewrites_single hname (hattrs _ List.mem_cons_self) hbehind.ends_append hnone atStart
  | cons second more =>
    exact rewrites_run hattrs (by simp [hmore]) (runReader_needsKey_class hname) hnone atStart

end Names

end VariantClasses
