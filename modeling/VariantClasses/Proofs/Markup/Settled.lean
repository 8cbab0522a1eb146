import VariantClasses.Proofs.Markup.Transforming

/-! # Transforming markup again

Transformed markup is well formed itself: each block holds one plain attribute, and where a
block has gone the texts around it are one text (`Markup.WellFormed.settled`). So there is
nothing left to be expanded or merged in it, and transforming it again changes nothing.
-/

namespace VariantClasses

open Text

/-! ## Settled markup -/

/-- The one attribute that a block becomes, or nothing when the block goes. -/
def Block.joined? (depth : Nat) (name : Text) (block : Block) : Option Attribute :=
  if block.more.isEmpty then some (block.first.2.expanded depth name)
  else if (block.classTexts depth).isEmpty then none
  else some ⟨name, none, .double (joinWith [' '] (block.classTexts depth))⟩

/-- The markup that text and the parts behind it become. -/
def settle (depth : Nat) (name : Text) : Text → List (Block × Text) → Markup
  | opening, [] => ⟨opening, []⟩
  | opening, (block, text) :: parts =>
    match block.joined? depth name with
    | none => settle depth name (opening ++ (block.first.1.dropLast ++ text)) parts
    | some attr =>
      let rest := settle depth name text parts
      ⟨opening, (⟨(block.first.1, attr), []⟩, rest.opening) :: rest.parts⟩

/-- What markup becomes, as markup. -/
def Markup.settled (depth : Nat) (name : Text) (markup : Markup) : Markup :=
  settle depth name markup.opening markup.parts

theorem Block.transformed_eq (depth : Nat) (name : Text) (block : Block) :
    block.transformed depth name = (block.joined? depth name).elim block.first.1.dropLast
      fun attr => block.first.1 ++ attr.written := by
  rw [transformed, joined?]
  cases hmore : block.more.isEmpty with
  | false =>
    cases (block.classTexts depth).isEmpty with
    | true => rfl
    | false => exact congrArg (block.first.1 ++ ·) (written_double name _).symm
  | true =>
    rw [Attribute.expanded]
    cases block.first.2.chain.isNone with
    | true => exact written_eq_of_more (List.isEmpty_iff.mp hmore)
    | false => exact congrArg (block.first.1 ++ ·) (written_double name _).symm

theorem settle_written (depth : Nat) (name opening : Text) (parts : List (Block × Text)) :
    (settle depth name opening parts).written =
      opening ++ partsWritten (Block.transformed depth name) parts := by
  fun_induction settle depth name opening parts with
  | case1 opening => rfl
  | case2 opening block text parts hgone ih =>
    rw [ih, partsWritten_cons, Block.transformed_eq, hgone]
    simp
  | case3 opening block text parts attr hattr rest ih =>
    have hblock : Block.written ⟨(block.first.1, attr), []⟩ = block.first.1 ++ attr.written :=
      Block.written_eq_of_more rfl
    rw [partsWritten_cons, Block.transformed_eq, hattr, ← ih, Markup.written, partsWritten_cons,
      hblock]
    rfl

theorem settled_written (depth : Nat) (name : Text) (markup : Markup) :
    (markup.settled depth name).written = markup.transformed depth name :=
  settle_written depth name markup.opening markup.parts

/-! ## Joined texts and attributes -/

/-- Texts without a name put next to each other have none when the second starts with a
character that is in no name. -/
theorem IsNameless.append {front rest : Text} (hfront : IsNameless front) (hrest : IsNameless rest)
    (hhead : ∀ c ∈ rest.head?, c ∉ AttributeName.class_.text) : IsNameless (front ++ rest) := by
  cases rest with
  | nil => rwa [List.append_nil]
  | cons c rest =>
    rw [isNameless_iff, infix_append_cons_iff (hhead c rfl) (by decide)]
    intro h
    rcases h with h | h
    · exact isNameless_iff.mp hfront h
    · exact isNameless_iff.mp hrest (List.infix_cons h)

theorem EndsAttribute.not_mem_name {text : Text} (h : EndsAttribute text) :
    ∀ c ∈ text.head?, c ∉ AttributeName.class_.text := by
  intro c hc hmem
  exact not_mem_of_endsAttribute AttributeName.class_.plain h c hc (List.mem_append_left _ hmem)

/-- The text that is left where a block has gone. -/
theorem isNameless_gone {opening blanks text : Text} (hopening : IsNameless opening)
    (hblanks : ∀ c ∈ blanks, isBlank c = true) (htext : IsNameless text)
    (hends : EndsAttribute text) : IsNameless (opening ++ (blanks ++ text)) := by
  have hrest : IsNameless (blanks ++ text) :=
    (isNameless_of_blanks hblanks).append htext hends.not_mem_name
  apply hopening.append hrest
  cases blanks with
  | nil => exact hends.not_mem_name
  | cons c blanks =>
    intro d hd
    obtain rfl : c = d := Option.some.inj hd
    exact not_mem_of_isBlank AttributeName.class_.plain (hblanks c List.mem_cons_self)

/-- Classes of plain values can be enclosed in quotes again. -/
theorem isPlainValue_joinWith {texts : List Text} (h : ∀ text ∈ texts, IsPlainValue text) :
    IsPlainValue (joinWith [' '] texts) := by
  have hinfix {part : Text} (hspace : ' ' ∉ part) (hne : part ≠ [])
      (hnone : ∀ text ∈ texts, ¬part <:+: text) : ¬part <:+: joinWith [' '] texts := by
    intro hpart
    obtain ⟨text, htext, hpart⟩ := (infix_joinWith_iff hspace hne).mp hpart
    exact hnone text htext hpart
  have hquote {c : Char} (hspace : c ≠ ' ') (hnone : ∀ text ∈ texts, c ∉ text) :
      c ∉ joinWith [' '] texts := by
    intro hc
    rcases mem_joinWith hc with hc | ⟨text, htext, hc⟩
    · exact hspace (List.mem_singleton.mp hc)
    · exact hnone text htext hc
  refine ⟨isNameless_iff.mpr ?_, hquote (by decide) fun text htext => (h text htext).double,
    hquote (by decide) fun text htext => (h text htext).single, includes_eq_false_iff.mpr ?_⟩
  · exact hinfix (by decide) (by decide) fun text htext => isNameless_iff.mp (h text htext).nameless
  · exact hinfix (by decide) (by decide) fun text htext =>
      includes_eq_false_iff.mp (h text htext).interpolation

theorem IsPlainValue.trim {body : Text} (h : IsPlainValue body) : IsPlainValue body.trim where
  nameless := isNameless_iff.mpr fun hname =>
    isNameless_iff.mp h.nameless (hname.trans (trim_isInfix body))
  double hquote := h.double ((trim_isInfix body).subset hquote)
  single hquote := h.single ((trim_isInfix body).subset hquote)
  interpolation := includes_eq_false_iff.mpr fun hpart =>
    includes_eq_false_iff.mp h.interpolation (hpart.trans (trim_isInfix body))

section Names

variable {name : AttributeName}

theorem Attribute.WellFormed.isPlainValue_classText {attr : Attribute} (h : attr.WellFormed name)
    (depth : Nat) : IsPlainValue (attr.classText depth) := by
  have hvalue := h.isPlainValue
  cases h with
  | plain _ _ _ => exact hvalue.trim
  | modified hchain _ _ _ => exact VariantClasses.isPlainValue_classText rfl hchain hvalue

/-- The attribute that a block becomes is well formed and plain. -/
theorem Block.wellFormed_joined {depth : Nat} {block : Block}
    (h : ∀ attr ∈ block.attrs, Block.Holds name attr) {attr : Attribute}
    (hattr : block.joined? depth name.text = some attr) :
    attr.WellFormed name ∧ attr.chain = none := by
  unfold joined? at hattr
  split at hattr
  next =>
    obtain rfl := Option.some.inj hattr
    exact (h block.first List.mem_cons_self).wellFormed.expanded depth
  next =>
    split at hattr
    next => cases hattr
    next =>
      obtain rfl := Option.some.inj hattr
      refine ⟨.plain List.mem_cons_self rfl (isPlainValue_joinWith fun text htext => ?_), rfl⟩
      obtain ⟨source, hsource, rfl⟩ := List.mem_map.mp (List.mem_filter.mp htext).1
      exact (h source hsource).wellFormed.isPlainValue_classText depth

/-! ## Well-formedness -/

/-- A block that holds one plain attribute. -/
def Block.IsSettled (block : Block) : Prop :=
  block.more = [] ∧ block.first.2.chain = none

theorem Block.IsSettled.transformed {block : Block} (h : block.IsSettled) (depth : Nat)
    (text : Text) : block.transformed depth text = block.written := by
  rw [Block.transformed, h.1, h.2]
  rfl

/-- A text that goes on with what is joined to it still ends the attributes before it. -/
theorem endsAttribute_append {text more : Text} (h : EndsAttribute text)
    (hempty : text = [] → more = []) : EndsAttribute (text ++ more) := by
  cases text with
  | cons c text => exact h
  | nil =>
    rw [hempty rfl]
    exact h

/-- Settled markup is well formed, and it starts with the text that it started with. -/
theorem settle_wellFormed (depth : Nat) {opening : Text} {parts : List (Block × Text)}
    (hopening : IsNameless opening) (hparts : PartsWellFormed name parts) :
    (settle depth name.text opening parts).WellFormed name ∧
      (∀ part ∈ (settle depth name.text opening parts).parts, part.1.IsSettled) ∧
      ∃ more, (settle depth name.text opening parts).opening = opening ++ more ∧
        (parts = [] → more = [] ∧ (settle depth name.text opening parts).parts = []) := by
  fun_induction settle depth name.text opening parts with
  | case1 opening =>
    exact ⟨⟨hopening, hparts⟩, by simp, [], by simp, fun _ => ⟨rfl, rfl⟩⟩
  | case2 opening block text parts hgone ih =>
    have hblanks : ∀ c ∈ block.first.1.dropLast, isBlank c = true := fun c hc =>
      (hparts.blocks _ List.mem_cons_self _ List.mem_cons_self).blanks c
        (List.dropLast_subset _ hc)
    obtain ⟨hwell, hsettled, more, hmore, -⟩ := ih
      (isNameless_gone hopening hblanks (hparts.nameless _ List.mem_cons_self)
        (hparts.ends _ List.mem_cons_self)) hparts.tail
    exact ⟨hwell, hsettled, block.first.1.dropLast ++ text ++ more, by simp [hmore], by simp⟩
  | case3 opening block text parts attr hattr rest ih =>
    obtain ⟨hwell, hsettled, more, hmore, hlast⟩ :=
      ih (hparts.nameless _ List.mem_cons_self) hparts.tail
    have hattrs := hparts.blocks _ List.mem_cons_self
    obtain ⟨hattrWell, hplain⟩ := Block.wellFormed_joined hattrs hattr
    have hholds : ∀ other ∈ Block.attrs ⟨(block.first.1, attr), []⟩, Block.Holds name other := by
      intro other hother
      have hfirst := hattrs _ List.mem_cons_self
      rw [List.mem_singleton.mp hother]
      exact ⟨hfirst.separated, hfirst.blanks, hattrWell⟩
    -- The text behind the block is empty only when no block follows, and then nothing is joined.
    have hends : EndsAttribute rest.opening := by
      rw [hmore]
      apply endsAttribute_append (hparts.ends _ List.mem_cons_self)
      intro hempty
      by_cases hnil : parts = []
      · exact (hlast hnil).1
      · obtain ⟨c, hc, -⟩ := hparts.exists_solid hnil
        rw [hempty] at hc
        cases hc
    have hsolid : rest.parts ≠ [] → ∃ c ∈ rest.opening, isBlank c = false := by
      intro hne
      obtain ⟨c, hc, hsolid⟩ := hparts.exists_solid fun hnil => hne (hlast hnil).2
      exact ⟨c, hmore ▸ List.mem_append_left _ hc, hsolid⟩
    refine ⟨⟨hopening, .cons hholds hwell.opening hends hsolid hwell.parts⟩,
      List.forall_mem_cons.mpr ⟨⟨rfl, hplain⟩, hsettled⟩, [], (List.append_nil _).symm, by simp⟩

theorem Markup.WellFormed.settled {markup : Markup} (h : markup.WellFormed name) (depth : Nat) :
    (markup.settled depth name.text).WellFormed name ∧
      ∀ part ∈ (markup.settled depth name.text).parts, part.1.IsSettled := by
  obtain ⟨hwell, hsettled, -⟩ := settle_wellFormed depth h.opening h.parts
  exact ⟨hwell, hsettled⟩

/-! ## Transforming again -/

/-- Settled markup holds no modified attribute. -/
theorem occurrences_modified_eq_nil {markup : Markup} (h : markup.WellFormed name)
    (hclass : AttributeName.class_.text <+: name.text)
    (hsettled : ∀ part ∈ markup.parts, part.1.IsSettled) :
    (Pattern.modified name.text).occurrences markup.written = [] := by
  apply List.map_eq_nil_iff.mp
  refine (map_occurrences_written name.plain hclass h).trans (List.filter_eq_nil_iff.mpr ?_)
  intro attr hattr
  obtain ⟨part, hpart, other, hother, rfl⟩ := Markup.mem_attributes_iff.mp hattr
  obtain ⟨hmore, hplain⟩ := hsettled part hpart
  rw [Block.attrs, hmore, List.mem_singleton] at hother
  rw [hother, decide_eq_true_eq, Attribute.pattern, hplain]
  exact fun h => Form.noConfusion (congrArg Pattern.form h)

theorem transformed_of_settled {markup : Markup}
    (hsettled : ∀ part ∈ markup.parts, part.1.IsSettled) (depth : Nat) (text : Text) :
    markup.transformed depth text = markup.written := by
  rw [Markup.transformed, Markup.written]
  exact congrArg (markup.opening ++ ·)
    (partsWritten_congr fun part hpart => (hsettled part hpart).transformed depth text)

end Names

/-- Transforming well-formed markup a second time changes nothing and records no class. -/
theorem transform_transform_written (options : Options) (dialect : Dialect) (markup : Markup)
    (h : markup.WellFormed dialect.attributeName) :
    let once := transform options dialect markup.written
    let twice := transform options dialect once.code
    twice.code = once.code ∧ twice.changed = false ∧ twice.variants = ∅ := by
  intro once twice
  have hname := dialect.prefix_class _ List.mem_cons_self
  obtain ⟨hwell, hsettled⟩ := h.settled options.maxDepth
  have honce : once.code =
      (markup.settled options.maxDepth dialect.attributeName.text).written :=
    (merge_expand_written dialect.prefix_class h _).trans (settled_written _ _ _).symm
  have htwice : twice.code = once.code := by
    rw [honce, ← transformed_of_settled hsettled options.maxDepth dialect.attributeName.text,
      ← merge_expand_written dialect.prefix_class hwell, ← honce]
    rfl
  refine ⟨htwice, ?_, ?_⟩
  · have hchanged : twice.changed = (twice.code != once.code) := rfl
    rw [hchanged, htwice, bne_self_eq_false]
  · have hvariants : twice.variants = ClassSet.insertAll ∅
        (((Pattern.modified dialect.attributeName.text).occurrences once.code).flatMap
          (Occurrence.recordedClasses options.maxDepth)) := rfl
    rw [hvariants, honce, occurrences_modified_eq_nil hwell hname hsettled]
    ext class_
    simp

/-- A block without classes goes, and the next is expanded and merged, once and for all. -/
theorem transform_transform_written_of_dropped_block :
    let dropped : Block :=
      ⟨(" ".toList, ⟨"class".toList, none, .single []⟩),
        [("\n".toList, ⟨"className".toList, none, .double " ".toList⟩)]⟩
    let expanded : Block :=
      ⟨(" ".toList, ⟨"class".toList, none, .single "a".toList⟩),
        [("  ".toList, ⟨"class".toList, some "sm:md".toList, .double "x y".toList⟩)]⟩
    let markup : Markup := ⟨"<p".toList, [(dropped, "><b".toList), (expanded, "/>".toList)]⟩
    let once := transform {} .class_ markup.written
    let twice := transform {} .class_ once.code
    markup.WellFormed AttributeName.class_ ∧
      once.code = "<p><b class=\"a sm:md:x sm:x md:x sm:md:y sm:y md:y\"/>".toList ∧
      twice.code = once.code ∧ twice.changed = false ∧ twice.variants = ∅ := by
  intro dropped expanded markup once twice
  have hmarkup : markup.WellFormed AttributeName.class_ := by decide +kernel
  exact ⟨hmarkup, by decide +kernel, transform_transform_written {} .class_ markup hmarkup⟩

end VariantClasses
