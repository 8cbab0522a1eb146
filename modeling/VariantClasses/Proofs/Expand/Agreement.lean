import VariantClasses.Proofs.Attribute.Reading
import VariantClasses.Proofs.Expand.Tokens

/-! # What is collected and what is expanded

Collecting names the variants of words, expanding lists those of tokens and records some of
them. Both come from the same attributes, so they differ only where a token holds a
blank, and only malformed tokens go unrecorded.
-/

namespace VariantClasses

open Text

/-! ## Where classes come from -/

/-- An attribute names a class as a variant of a word of its value. -/
def Attribute.Generates (depth : Nat) (attr : Attribute) (token class_ : Text) : Prop :=
  attr.modifiers ≠ [] ∧ token ∈ words attr.quotedText ∧ class_ ∈ variants depth attr.modifiers token

/-- The classes that the expanded attributes of a text list. -/
def listedClasses (depth : Nat) (modified : Pattern) (text : Text) : List Text :=
  (modified.occurrences text).flatMap fun found =>
    if found.attr.modifiers.isEmpty then [] else found.attr.writtenClasses depth

theorem mem_collected_iff {depth : Nat} {plain modified : Pattern} {text class_ : Text} :
    class_ ∈ (collect depth plain modified text).variants ↔
      ∃ found ∈ modified.occurrences text, ∃ token, found.attr.Generates depth token class_ := by
  simp only [collect, ClassSet.mem_ofList, List.mem_flatMap, Attribute.variantClasses,
    Attribute.Generates]
  refine exists_congr fun found => and_congr_right fun _ => ?_
  cases hmodifiers : found.attr.modifiers with
  | nil => simp
  | cons modifier rest => simp

theorem mem_produced_iff {depth : Nat} {attr : Attribute} {class_ token : Text} :
    (class_, token) ∈ attr.produced depth ↔
      token ∈ tokens attr.quotedText ∧ class_ ∈ variants depth attr.modifiers token := by
  simp only [Attribute.produced, List.mem_flatMap, List.mem_map]
  constructor
  · intro h
    obtain ⟨other, hother, variant, hvariant, hpair⟩ := h
    obtain ⟨rfl, rfl⟩ := Prod.mk.inj hpair
    exact ⟨hother, hvariant⟩
  · intro h
    obtain ⟨htoken, hclass⟩ := h
    exact ⟨token, htoken, class_, hclass, rfl⟩

theorem mem_recordedClasses_iff {depth : Nat} {attr : Attribute} {class_ : Text} :
    class_ ∈ attr.recordedClasses depth ↔ ∃ token ∈ tokens attr.quotedText,
      class_ ∈ variants depth attr.modifiers token ∧ isRecorded class_ token = true := by
  rw [Attribute.recordedClasses, List.mem_map]
  constructor
  · intro h
    obtain ⟨⟨variant, token⟩, hmem, rfl⟩ := h
    obtain ⟨hproduced, hrecorded⟩ := List.mem_filter.mp hmem
    obtain ⟨htoken, hclass⟩ := mem_produced_iff.mp hproduced
    exact ⟨token, htoken, hclass, hrecorded⟩
  · intro h
    obtain ⟨token, htoken, hclass, hrecorded⟩ := h
    have hproduced := mem_produced_iff.mpr ⟨htoken, hclass⟩
    exact ⟨(class_, token), List.mem_filter.mpr ⟨hproduced, hrecorded⟩, rfl⟩

theorem mem_listedClasses_iff {depth : Nat} {modified : Pattern} {text class_ : Text} :
    class_ ∈ listedClasses depth modified text ↔
      ∃ found ∈ modified.occurrences text, found.attr.modifiers ≠ [] ∧
        ∃ token ∈ tokens found.attr.quotedText,
          class_ ∈ variants depth found.attr.modifiers token := by
  simp only [listedClasses, List.mem_flatMap]
  refine exists_congr fun found => and_congr_right fun _ => ?_
  cases hmodifiers : found.attr.modifiers with
  | nil => simp
  | cons modifier rest => simp [Attribute.writtenClasses, mem_produced_iff, hmodifiers]

theorem mem_expand_produced_iff {depth : Nat} {modified : Pattern} {name text class_ : Text}
    {produced : ClassSet} :
    class_ ∈ (expand depth modified name produced text).produced ↔
      class_ ∈ produced ∨ ∃ found ∈ modified.occurrences text, found.attr.modifiers ≠ [] ∧
        ∃ token ∈ tokens found.attr.quotedText,
          class_ ∈ variants depth found.attr.modifiers token ∧ isRecorded class_ token = true := by
  simp only [expand, ClassSet.mem_insertAll, List.mem_flatMap]
  refine or_congr_right (exists_congr fun found => and_congr_right fun _ => ?_)
  cases hmodifiers : found.attr.modifiers with
  | nil => simp [Occurrence.recordedClasses, hmodifiers]
  | cons modifier rest => simp [Occurrence.recordedClasses, mem_recordedClasses_iff, hmodifiers]

theorem continuesChain_of_mem_modifiers {name text : Text} (hname : isAttributeName name = true)
    {found : Occurrence} (hfound : found ∈ (Pattern.modified name).occurrences text) :
    ∀ modifier ∈ found.attr.modifiers, ∀ c ∈ modifier, continuesChain c = true := by
  obtain ⟨-, ⟨chain, hchain, hcontinues⟩, -⟩ := Pattern.admits_of_mem_occurrences hname hfound
  intro modifier hmodifier c hc
  rw [Attribute.modifiers, hchain] at hmodifier
  exact hcontinues c ((infix_of_mem_modifiersOf hmodifier).1.subset hc)

theorem exists_blank_iff_of_mem_variants {name text : Text} (hname : isAttributeName name = true)
    {found : Occurrence} (hfound : found ∈ (Pattern.modified name).occurrences text) {depth : Nat}
    {token class_ : Text} (h : class_ ∈ variants depth found.attr.modifiers token) :
    (∃ c ∈ class_, isBlank c = true) ↔ ∃ c ∈ token, isBlank c = true := by
  refine exists_mem_iff_of_mem_variants (by decide) (fun modifier hmodifier c hc => ?_) h
  have hcontinues := continuesChain_of_mem_modifiers hname hfound modifier hmodifier c hc
  exact (continuesChain_iff.mp hcontinues).1

theorem forall_not_blank_iff_of_mem_variants {name text : Text}
    (hname : isAttributeName name = true) {found : Occurrence}
    (hfound : found ∈ (Pattern.modified name).occurrences text) {depth : Nat}
    {token class_ : Text} (h : class_ ∈ variants depth found.attr.modifiers token) :
    (∀ c ∈ class_, isBlank c = false) ↔ ∀ c ∈ token, isBlank c = false := by
  simpa using not_congr (exists_blank_iff_of_mem_variants hname hfound h)

/-! ## What is written -/

section Written

variable {name text : Text} (hname : isAttributeName name = true) {found : Occurrence}
  (hfound : found ∈ (Pattern.modified name).occurrences text) {depth : Nat}

include hname hfound

/-- A character that no chain may hold stands in a class exactly when its token has it. -/
theorem mem_iff_of_mem_variants {c : Char} (hc : continuesChain c = false) (hcolon : c ≠ ':')
    {token class_ : Text} (hvariant : class_ ∈ variants depth found.attr.modifiers token) :
    c ∈ class_ ↔ c ∈ token := by
  have hmodifiers : ∀ modifier ∈ found.attr.modifiers, ∀ d ∈ modifier, (d == c) = false := by
    intro modifier hmodifier d hd
    have hcontinues := continuesChain_of_mem_modifiers hname hfound modifier hmodifier d hd
    apply beq_false_of_ne
    intro hdc
    rw [hdc, hc] at hcontinues
    cases hcontinues
  have hiff := exists_mem_iff_of_mem_variants (p := (· == c)) (beq_false_of_ne (Ne.symm hcolon))
    hmodifiers hvariant
  simpa using hiff

theorem not_mem_space_of_mem_writtenClasses :
    ∀ class_ ∈ found.attr.writtenClasses depth, ' ' ∉ class_ := by
  intro class_ hclass
  obtain ⟨token, htoken, hvariant⟩ := mem_writtenClasses_iff.mp hclass
  rw [mem_iff_of_mem_variants hname hfound (by decide) (by decide) hvariant]
  exact not_mem_space_of_mem_tokens htoken

/-- The written value, split at spaces, gives the listed classes back. -/
theorem filter_splitOn_writtenClasses (depth : Nat) :
    ((joinWith [' '] (found.attr.writtenClasses depth)).splitOn ' ').filter (!·.isEmpty) =
      found.attr.writtenClasses depth := by
  apply filter_splitOn_joinWith (not_mem_space_of_mem_writtenClasses hname hfound)
  intro hnil
  obtain ⟨token, -, hvariant⟩ := mem_writtenClasses_iff.mp hnil
  exact ne_nil_of_mem_variants hvariant rfl

end Written

/-- Every attribute with a modifier is written anew, with its lead and a value that lists its
classes. -/
theorem expand_text (depth : Nat) (modified : Pattern) (name : Text) (produced : ClassSet)
    (text : Text) :
    (expand depth modified name produced text).text =
      (modified.reader.cut true text).flatMap (Piece.replaced fun found =>
        if found.attr.modifiers = [] then found.written
        else found.lead ++
          doubleQuoted name (joinWith [' '] (found.attr.writtenClasses depth))) := by
  have hreplaced : Occurrence.expanded depth name = fun found =>
      if found.attr.modifiers = [] then found.written
      else found.lead ++ doubleQuoted name (joinWith [' '] (found.attr.writtenClasses depth)) := by
    funext found
    simp [Occurrence.expanded]
  rw [expand, Reader.replaceAll_eq_flatMap, hreplaced]

theorem doubleQuoted_eq (name body : Text) :
    doubleQuoted name body = name ++ '=' :: '"' :: (body ++ ['"']) := by
  simp [doubleQuoted]

/-! ## What is recorded -/

theorem isSingleQuoted_iff {token : Text} :
    isSingleQuoted token = true ↔ ∃ inner, token = '\'' :: (inner ++ ['\'']) := by
  constructor
  · intro h
    simp only [isSingleQuoted, Bool.and_eq_true, decide_eq_true_eq, beq_iff_eq] at h
    obtain ⟨⟨hlength, hhead⟩, hlast⟩ := h
    obtain ⟨rest, rfl⟩ := List.head?_eq_some_iff.mp hhead
    obtain ⟨front, hfront⟩ := List.getLast?_eq_some_iff.mp hlast
    cases front with
    | nil =>
      rw [hfront] at hlength
      simp at hlength
    | cons c inner =>
      obtain ⟨-, rfl⟩ := List.cons.inj hfront
      exact ⟨inner, rfl⟩
  · intro h
    obtain ⟨inner, rfl⟩ := h
    simp [isSingleQuoted, List.getLast?_cons]

/-- A variant goes unrecorded when its token ends in a colon or stands between single
quotes. -/
theorem isRecorded_eq_false_iff {depth : Nat} {modifiers : List Text} {class_ token : Text}
    (hclass : class_ ∈ variants depth modifiers token) (hne : token ≠ []) :
    isRecorded class_ token = false ↔
      (∃ start, token = start ++ [':']) ∨ ∃ inner, token = '\'' :: (inner ++ ['\'']) := by
  obtain ⟨front, rfl, -⟩ := exists_of_mem_variants hclass
  -- A variant ends in its token, so the last character of one is that of the other.
  have hlast : (underModifier front token).getLast? = token.getLast? := by
    cases token with
    | nil => exact absurd rfl hne
    | cons c rest => simp [underModifier, List.getLast?_cons]
  rw [isRecorded, hlast, ← isSingleQuoted_iff, ← List.getLast?_eq_some_iff]
  cases isSingleQuoted token <;> simp

/-! ## Agreement -/

section Agreement

variable {name : AttributeName} {depth : Nat} {text : Text}

theorem mem_collected_of_mem_listed {plain : Pattern} {class_ : Text}
    (h : class_ ∈ listedClasses depth (.modified name.text) text)
    (hblank : ∀ c ∈ class_, isBlank c = false) :
    class_ ∈ (collect depth plain (.modified name.text) text).variants := by
  obtain ⟨found, hfound, hne, token, htoken, hclass⟩ := mem_listedClasses_iff.mp h
  have hfree := (forall_not_blank_iff_of_mem_variants name.plain hfound hclass).mp hblank
  exact mem_collected_iff.mpr
    ⟨found, hfound, token, hne, mem_words_of_mem_tokens htoken hfree, hclass⟩

theorem not_blank_of_mem_collected {plain : Pattern} {class_ : Text}
    (h : class_ ∈ (collect depth plain (.modified name.text) text).variants) :
    ∀ c ∈ class_, isBlank c = false := by
  obtain ⟨found, hfound, token, -, htoken, hclass⟩ := mem_collected_iff.mp h
  have hfree := not_blank_of_mem_words htoken
  exact (forall_not_blank_iff_of_mem_variants name.plain hfound hclass).mpr hfree

theorem mem_listed_of_mem_recorded {modified : Pattern} {attrName class_ : Text}
    (h : class_ ∈ (expand depth modified attrName ∅ text).produced) :
    class_ ∈ listedClasses depth modified text := by
  rcases mem_expand_produced_iff.mp h with hempty | ⟨found, hfound, hne, token, htoken, hclass, -⟩
  · exact absurd hempty (ClassSet.not_mem_empty class_)
  · exact mem_listedClasses_iff.mpr ⟨found, hfound, hne, token, htoken, hclass⟩

/-- Where the space is the only blank in the values, listing and collecting agree. -/
theorem mem_listed_iff_of_spaces {plain : Pattern} {class_ : Text}
    (hspaces : ∀ found ∈ (Pattern.modified name.text).occurrences text,
      ∀ c ∈ found.attr.quotedText, isBlank c = true → c = ' ') :
    class_ ∈ listedClasses depth (.modified name.text) text ↔
      class_ ∈ (collect depth plain (.modified name.text) text).variants := by
  rw [mem_listedClasses_iff, mem_collected_iff]
  refine exists_congr fun found => and_congr_right fun hfound => ?_
  simp only [Attribute.Generates, tokens_eq_words (hspaces found hfound)]
  exact ⟨fun ⟨hne, token, htoken, hclass⟩ => ⟨token, hne, htoken, hclass⟩,
    fun ⟨token, hne, htoken, hclass⟩ => ⟨hne, token, htoken, hclass⟩⟩

theorem mem_recorded_iff_of_spaces {attrName class_ : Text}
    (hspaces : ∀ found ∈ (Pattern.modified name.text).occurrences text,
      ∀ c ∈ found.attr.quotedText, isBlank c = true → c = ' ') :
    class_ ∈ (expand depth (.modified name.text) attrName ∅ text).produced ↔
      ∃ found ∈ (Pattern.modified name.text).occurrences text, ∃ token,
        found.attr.Generates depth token class_ ∧ isRecorded class_ token = true := by
  rw [mem_expand_produced_iff, or_iff_right (ClassSet.not_mem_empty class_)]
  refine exists_congr fun found => and_congr_right fun hfound => ?_
  simp only [Attribute.Generates, tokens_eq_words (hspaces found hfound)]
  constructor
  · intro h
    obtain ⟨hne, token, htoken, hclass, hrecorded⟩ := h
    exact ⟨token, ⟨hne, htoken, hclass⟩, hrecorded⟩
  · intro h
    obtain ⟨token, ⟨hne, htoken, hclass⟩, hrecorded⟩ := h
    exact ⟨hne, token, htoken, hclass, hrecorded⟩

end Agreement

/-- Collecting and expanding agree on modified attributes. The listed classes are those that stand
between spaces in the values that expanding writes. A listed class without blanks is collected, and
a recorded one is not collected exactly when it has a blank. Where the space is the only blank in
the values, the listed classes are the collected ones, every recorded class is collected, and a
collected class goes unrecorded exactly when every token that it is generated from, wherever it is,
ends in a colon or stands between single quotes. -/
theorem collect_agrees_with_expand (name : AttributeName) (depth : Nat) (text : Text) :
    let modified := Pattern.modified name.text
    let collected := (collect depth (.plain name.text) modified text).variants
    let listed := listedClasses depth modified text
    let recorded := (expand depth modified name.text ∅ text).produced
    (∃ body : Attribute → Text,
      (expand depth modified name.text ∅ text).text =
        (modified.reader.cut true text).flatMap (Piece.replaced fun found =>
          if found.attr.modifiers = [] then found.written
          else found.lead ++ (name.text ++ '=' :: '"' :: (body found.attr ++ ['"']))) ∧
      ∀ class_, class_ ∈ listed ↔ ∃ found ∈ modified.occurrences text, found.attr.modifiers ≠ [] ∧
        class_ ∈ ((body found.attr).splitOn ' ').filter (!·.isEmpty)) ∧
    (∀ class_ ∈ listed, (∀ c ∈ class_, isBlank c = false) → class_ ∈ collected) ∧
    (∀ class_ ∈ recorded, class_ ∉ collected ↔ ∃ c ∈ class_, isBlank c = true) ∧
    ((∀ found ∈ modified.occurrences text,
        ∀ c ∈ found.attr.quotedText, isBlank c = true → c = ' ') →
      (∀ class_, class_ ∈ listed ↔ class_ ∈ collected) ∧
      (∀ class_ ∈ recorded, class_ ∈ collected) ∧
      ∀ class_ ∈ collected, class_ ∉ recorded ↔
        ∀ found ∈ modified.occurrences text, ∀ token, found.attr.Generates depth token class_ →
          (∃ start, token = start ++ [':']) ∨ ∃ inner, token = '\'' :: (inner ++ ['\''])) := by
  intro modified collected listed recorded
  refine ⟨⟨fun attr => joinWith [' '] (attr.writtenClasses depth), ?_, fun class_ => ?_⟩,
    fun class_ hlisted hblank => mem_collected_of_mem_listed hlisted hblank, ?_, ?_⟩
  · simp only [expand_text, doubleQuoted_eq]
  · rw [mem_listedClasses_iff]
    refine exists_congr fun found => and_congr_right fun hfound => and_congr_right fun _ => ?_
    rw [filter_splitOn_writtenClasses name.plain hfound, mem_writtenClasses_iff]
  · intro class_ hrecorded
    constructor
    · intro hcollected
      by_cases hblank : ∃ c ∈ class_, isBlank c = true
      · exact hblank
      · apply absurd _ hcollected
        apply mem_collected_of_mem_listed (mem_listed_of_mem_recorded hrecorded)
        simpa using hblank
    · intro h hcollected
      obtain ⟨c, hc, hblank⟩ := h
      rw [not_blank_of_mem_collected hcollected c hc] at hblank
      cases hblank
  · intro hspaces
    refine ⟨fun class_ => mem_listed_iff_of_spaces hspaces, fun class_ hrecorded =>
      (mem_listed_iff_of_spaces hspaces).mp (mem_listed_of_mem_recorded hrecorded), ?_⟩
    intro class_ _
    have hmalformed {found : Occurrence} {token : Text}
        (h : found.attr.Generates depth token class_) := isRecorded_eq_false_iff h.2.2
          (mem_words_iff.mp h.2.1).2
    rw [mem_recorded_iff_of_spaces hspaces]
    constructor
    · intro hnone found hfound token hgenerates
      apply (hmalformed hgenerates).mp
      rw [← Bool.not_eq_true]
      intro htrue
      exact hnone ⟨found, hfound, token, hgenerates, htrue⟩
    · intro hall hexists
      obtain ⟨found, hfound, token, hgenerates, htrue⟩ := hexists
      rw [(hmalformed hgenerates).mpr (hall found hfound token hgenerates)] at htrue
      cases htrue

/-- Of a well-formed token and a quoted one both variants are collected. -/
theorem collect_agrees_with_expand_at_quoted_token :
    let text := "<p class:sm=\"a 'b' c:\">".toList
    let modified := Pattern.modified AttributeName.class_.text
    let plain := Pattern.plain AttributeName.class_.text
    let collected := (collect defaultDepth plain modified text).variants
    let recorded := (expand defaultDepth modified AttributeName.class_.text ∅ text).produced
    (∀ found ∈ modified.occurrences text,
      ∀ c ∈ found.attr.quotedText, isBlank c = true → c = ' ') ∧
    ("sm:a".toList ∈ recorded ∧ "sm:a".toList ∈ collected) ∧
    ("sm:'b'".toList ∉ recorded ∧ "sm:'b'".toList ∈ collected) := by
  intro text modified plain collected recorded
  have hall : ((modified.occurrences text).all fun found =>
      found.attr.quotedText.all fun c => !isBlank c || c == ' ') = true := by decide +kernel
  have hspaces : ∀ found ∈ modified.occurrences text,
      ∀ c ∈ found.attr.quotedText, isBlank c = true → c = ' ' := by
    intro found hfound c hc hblank
    have hvalue := List.all_eq_true.mp (List.all_eq_true.mp hall found hfound) c hc
    simpa [hblank] using hvalue
  have hrecorded : "sm:a".toList ∈ recorded ∧ "sm:'b'".toList ∉ recorded := by decide +kernel
  have hlisted : "sm:'b'".toList ∈ listedClasses defaultDepth modified text := by decide +kernel
  obtain ⟨hlisted_iff, hrecorded_mem, -⟩ :=
    (collect_agrees_with_expand .class_ defaultDepth text).2.2.2 hspaces
  exact ⟨hspaces, ⟨hrecorded.1, hrecorded_mem _ hrecorded.1⟩, hrecorded.2,
    (hlisted_iff _).mp hlisted⟩

end VariantClasses
