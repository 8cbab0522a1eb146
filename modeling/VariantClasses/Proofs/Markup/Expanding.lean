import VariantClasses.Proofs.Markup.Occurrences

/-! # Expanding well-formed markup

Every modified attribute of a block becomes a plain one with its variants, and nothing else
changes (`expand_written`). The blocks stay well formed: a class holds what its chain and its
token hold, and no name or mark can come from both.
-/

namespace VariantClasses

open Text

/-! ## Expanded blocks -/

/-- The plain attribute that takes the place of an attribute. -/
def Attribute.expanded (depth : Nat) (name : Text) (attr : Attribute) : Attribute :=
  if attr.chain.isNone then attr else ⟨name, none, .double (attr.classText depth)⟩

/-- An attribute that takes the place of another stands behind the same blanks. -/
def Block.expandedAttr (depth : Nat) (name : Text) (attr : Text × Attribute) : Text × Attribute :=
  (attr.1, attr.2.expanded depth name)

def Block.expanded (depth : Nat) (name : Text) (block : Block) : Block where
  first := expandedAttr depth name block.first
  more := block.more.map (expandedAttr depth name)

theorem Block.attrs_expanded (depth : Nat) (name : Text) (block : Block) :
    (block.expanded depth name).attrs = block.attrs.map (expandedAttr depth name) :=
  rfl

def Markup.expanded (depth : Nat) (name : Text) (markup : Markup) : Markup where
  opening := markup.opening
  parts := markup.parts.map fun part => (part.1.expanded depth name, part.2)

/-! ## Classes of a chain -/

theorem modifiersOf_ne_nil {chain : Text} (h : ∃ c ∈ chain, c ≠ ':') : modifiersOf chain ≠ [] := by
  obtain ⟨c, hc, hne⟩ := h
  -- A character that is no colon stands in a piece between colons.
  have hjoined : c ∈ joinWith [':'] (chain.splitOn ':') := by
    rwa [joinWith, List.intercalate_splitOn]
  rcases mem_joinWith hjoined with hcolon | ⟨modifier, hmodifier, hmem⟩
  · exact absurd (List.mem_singleton.mp hcolon) hne
  · have hfound : modifier ∈ modifiersOf chain :=
      List.mem_filter.mpr ⟨hmodifier, by simpa using List.ne_nil_of_mem hmem⟩
    exact List.ne_nil_of_mem hfound

section Parts

variable {part : Text} (hne : part ≠ []) (hcolon : ':' ∉ part)

include hne hcolon

/-- A part of a variant that avoids colons comes from the chain or the token. -/
theorem infix_of_infix_variant {depth : Nat} {chain token class_ : Text}
    (hclass : class_ ∈ variants depth (modifiersOf chain) token) (h : part <:+: class_) :
    part <:+: chain ∨ part <:+: token := by
  have hmodifier {modifier : Text} (hmem : modifier ∈ modifiersOf chain)
      (hpart : part <:+: modifier) : part <:+: chain :=
    hpart.trans (infix_of_mem_modifiersOf hmem).1
  have hsplit {front : Text} (hpart : part <:+: underModifier front token) :
      part <:+: front ∨ part <:+: token :=
    (infix_append_cons_iff hcolon hne).mp hpart
  rcases List.mem_cons.mp hclass with rfl | hclass
  · apply (hsplit h).imp_left
    intro hjoined
    obtain ⟨modifier, hmem, hpart⟩ := (infix_joinWith_iff hcolon hne).mp hjoined
    exact hmodifier hmem hpart
  · split at hclass
    next =>
      obtain ⟨modifier, hmem, rfl⟩ := List.mem_map.mp hclass
      exact (hsplit h).imp_left (hmodifier (List.mem_of_mem_take hmem))
    next => cases hclass

/-- A part of joined variants that avoids colons and spaces comes from the chain or the value. -/
theorem infix_of_infix_classText (hspace : ' ' ∉ part) {depth : Nat} {attr : Attribute}
    {chain : Text} (hchain : attr.chain = some chain) (h : part <:+: attr.classText depth) :
    part <:+: chain ∨ part <:+: attr.quotedText := by
  simp only [Attribute.classText, hchain] at h
  obtain ⟨class_, hclass, hpart⟩ := (infix_joinWith_iff hspace hne).mp h
  obtain ⟨word, hword, hclass⟩ := List.mem_flatMap.mp (List.mem_eraseDups.mp hclass)
  apply (infix_of_infix_variant hne hcolon hclass hpart).imp_right
  intro hinfix
  exact hinfix.trans (infix_of_mem_splitOnP (mem_words_iff.mp hword).1)

end Parts

/-- Variants can be enclosed in quotes when their chain and value can. -/
theorem isPlainValue_classText {depth : Nat} {attr : Attribute} {chain : Text}
    (hattr : attr.chain = some chain) (hchain : IsChain chain)
    (hvalue : IsPlainValue attr.quotedText) : IsPlainValue (attr.classText depth) := by
  have hmark {c : Char} (hc : c ∈ "=\"'<>\x7b\x7d".toList) : c ∉ chain :=
    fun hmem => (hchain.chars c hmem).2 hc
  have hquote {c : Char} (hc : c ∈ "=\"'<>\x7b\x7d".toList) (hcolon : ':' ∉ [c])
      (hspace : ' ' ∉ [c]) (hfree : c ∉ attr.quotedText) : c ∉ attr.classText depth := by
    intro hmem
    obtain ⟨front, rest, hsplit⟩ := List.append_of_mem hmem
    have hpart : [c] <:+: attr.classText depth := ⟨front, rest, by simp [hsplit]⟩
    rcases infix_of_infix_classText (List.cons_ne_nil c []) hcolon hspace hattr hpart with h | h
    · exact hmark hc (h.subset (List.mem_singleton_self c))
    · exact hfree (h.subset (List.mem_singleton_self c))
  refine ⟨isNameless_iff.mpr fun h => ?_, hquote (by decide) (by decide) (by decide) hvalue.double,
    hquote (by decide) (by decide) (by decide) hvalue.single, includes_eq_false_iff.mpr fun h => ?_⟩
  · rcases infix_of_infix_classText (by decide) (by decide) (by decide) hattr h with h | h
    · exact isNameless_iff.mp hchain.nameless h
    · exact isNameless_iff.mp hvalue.nameless h
  · rcases infix_of_infix_classText (by decide) (by decide) (by decide) hattr h with h | h
    · exact hmark (c := '\x7b') (by decide) (h.subset (by decide))
    · exact includes_eq_false_iff.mp hvalue.interpolation h

/-! ## Well-formed blocks -/

section Names

variable {name : AttributeName}

theorem Attribute.WellFormed.expanded {attr : Attribute} (h : attr.WellFormed name) (depth : Nat) :
    (attr.expanded depth name.text).WellFormed name ∧
      (attr.expanded depth name.text).chain = none := by
  have hvalue := h.isPlainValue
  cases h with
  | plain hname hbody hplain => exact ⟨.plain hname hbody hplain, rfl⟩
  | modified hchain _ _ _ =>
    exact ⟨.plain List.mem_cons_self rfl (isPlainValue_classText rfl hchain hvalue), rfl⟩

theorem joinWith_writtenClasses {depth : Nat} {attr : Attribute} {chain : Text}
    (hchain : attr.chain = some chain)
    (hspaces : ∀ c ∈ attr.quotedText, isBlank c = true → c = ' ') :
    joinWith [' '] (attr.writtenClasses depth) = attr.classText depth := by
  have hmodifiers : attr.modifiers = modifiersOf chain := by
    simp [Attribute.modifiers, hchain]
  rw [writtenClasses_eq_generatedClasses, Attribute.generatedClasses, tokens_eq_words hspaces,
    hmodifiers]
  simp only [Attribute.classText, hchain]

theorem expanded_modified {depth : Nat} {text chain : Text} {found : Occurrence}
    (hfound : found.attr.chain = some chain) (hchain : ∃ c ∈ chain, c ≠ ':')
    (hspaces : ∀ c ∈ found.attr.quotedText, isBlank c = true → c = ' ') :
    found.expanded depth text = found.lead ++ (found.attr.expanded depth text).written := by
  have hmodifiers : found.attr.modifiers.isEmpty = false := by
    simpa [Attribute.modifiers, hfound] using modifiersOf_ne_nil hchain
  rw [Occurrence.expanded, hmodifiers, joinWith_writtenClasses hfound hspaces,
    Attribute.expanded, hfound]
  exact congrArg (found.lead ++ ·) (written_double text _).symm

/-! ## Scanning -/

section Scanning

variable {depth : Nat} (hname : ∀ other ∈ name.mergedNames, AttributeName.class_.text <+: other)

include hname

theorem modified_needsKey_class :
    (Pattern.modified name.text).reader.NeedsKey AttributeName.class_.text :=
  Pattern.reader_needsKey_class name.plain (hname _ List.mem_cons_self)

/-- An attribute behind blanks is expanded where it stands. -/
theorem rewrites_attribute {attr : Text × Attribute} (hattr : Block.Holds name attr)
    {rest : Text} (hrest : EndsAttribute rest) (atStart : Bool) :
    (Pattern.modified name.text).reader.Rewrites (Occurrence.expanded depth name.text) atStart
      (attr.1 ++ attr.2.written) rest
      (attr.1 ++ (attr.2.expanded depth name.text).written) := by
  have hclass := modified_needsKey_class hname
  obtain ⟨front, c, hblanks, hc, hfront⟩ := hattr.exists_eq_append
  have hwell := hattr.wellFormed
  obtain ⟨blanks, attr⟩ := attr
  dsimp only at hblanks hwell ⊢
  rw [hblanks, List.append_assoc, List.append_assoc]
  refine (rewrites_nameless hclass hfront (by simp [hc]) atStart).append ?_
  cases hwell with
  | plain hother hvalue hbody =>
    apply Reader.PassesOver.rewrites
    refine passesOver_attribute hclass (.plain hother hvalue hbody) hrest ?_
    exact read?_eq_none_of_pattern_ne name.plain (.plain hother hvalue hbody)
      (fun h => Form.noConfusion (congrArg Pattern.form h)) hc rest _
  | @modified chain body value hchain hvalue hbody hspaces =>
    -- The reader recognises the attribute behind the last of the blanks.
    have hread (start : Bool) : (Pattern.modified name.text).reader.read? start
        (Occurrence.written ⟨[c], ⟨name.text, some chain, value⟩⟩ ++ rest) =
          some (⟨[c], ⟨name.text, some chain, value⟩⟩, rest) :=
      (Pattern.reader_read?_eq_some_iff name.plain).mpr
        ⟨.inr ⟨c, hc, rfl⟩, hattr.wellFormed.admits, rfl⟩
    have hresult : Occurrence.expanded depth name.text ⟨[c], ⟨name.text, some chain, value⟩⟩ =
        [c] ++ (Attribute.expanded depth name.text ⟨name.text, some chain, value⟩).written :=
      expanded_modified rfl hchain.modifier (by rwa [Attribute.quotedText, hvalue])
    rw [← hresult]
    exact Reader.rewrites_of_read (hread _)

theorem rewrites_attributes {attrs : List (Text × Attribute)}
    (hattrs : ∀ attr ∈ attrs, Block.Holds name attr) {rest : Text} (hrest : EndsAttribute rest)
    (atStart : Bool) :
    (Pattern.modified name.text).reader.Rewrites (Occurrence.expanded depth name.text) atStart
      (followersWritten attrs) rest
      (followersWritten (attrs.map (Block.expandedAttr depth name.text))) := by
  rw [followersWritten, followersWritten, List.flatMap_map]
  exact yields_attributes hattrs (fun attr hattr rest hrest atStart =>
    rewrites_attribute hname (hattrs attr hattr) hrest atStart) hrest atStart

/-- Expanding markup expands its attributes. -/
theorem expand_written {markup : Markup} (h : markup.WellFormed name) (produced : ClassSet) :
    (expand depth (.modified name.text) name.text produced markup.written).text =
      (markup.expanded depth name.text).written := by
  have hscan : (Pattern.modified name.text).reader.replaceAll
      (Occurrence.expanded depth name.text) markup.written = markup.opening ++
        partsWritten (fun block => (block.expanded depth name.text).written) markup.parts := by
    apply replaceAll_markup_written (modified_needsKey_class hname) h
    intro part hpart atStart text after hbehind
    exact rewrites_attributes hname (h.parts.blocks part hpart) hbehind.ends_append atStart
  have hparts := partsWritten_map Block.written (Block.expanded depth name.text) markup.parts
  exact hscan.trans (congrArg (markup.opening ++ ·) hparts.symm)

end Scanning

/-- Expanded markup is well formed, and its attributes are plain. -/
theorem Markup.WellFormed.expanded {markup : Markup} (h : markup.WellFormed name) (depth : Nat) :
    (markup.expanded depth name.text).WellFormed name ∧
      ∀ part ∈ (markup.expanded depth name.text).parts, ∀ attr ∈ part.1.attrs,
        attr.2.chain = none := by
  have hexpanded : ∀ part ∈ (markup.expanded depth name.text).parts, ∀ attr ∈ part.1.attrs,
      Block.Holds name attr ∧ attr.2.chain = none := by
    intro part hpart attr hattr
    obtain ⟨original, horiginal, rfl⟩ := List.mem_map.mp hpart
    rw [Block.attrs_expanded] at hattr
    obtain ⟨source, hsource, rfl⟩ := List.mem_map.mp hattr
    have hholds := h.parts.blocks original horiginal source hsource
    have hplain := hholds.wellFormed.expanded depth
    exact ⟨⟨hholds.separated, hholds.blanks, hplain.1⟩, hplain.2⟩
  have htext {P : Text → Prop} {parts : List (Block × Text)} (hparts : ∀ part ∈ parts, P part.2) :
      ∀ part ∈ parts.map fun part => (part.1.expanded depth name.text, part.2), P part.2 := by
    intro part hpart
    obtain ⟨original, horiginal, rfl⟩ := List.mem_map.mp hpart
    exact hparts original horiginal
  refine ⟨⟨h.opening, fun part hpart attr hattr => (hexpanded part hpart attr hattr).1,
    htext h.parts.nameless, htext h.parts.ends, ?_⟩,
    fun part hpart attr hattr => (hexpanded part hpart attr hattr).2⟩
  rw [Markup.expanded, ← List.map_dropLast]
  exact htext (P := fun text => ∃ c ∈ text, isBlank c = false) h.parts.between

end Names

end VariantClasses
