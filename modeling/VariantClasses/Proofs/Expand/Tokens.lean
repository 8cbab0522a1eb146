import VariantClasses.Expand
import VariantClasses.Proofs.Ascending
import VariantClasses.Proofs.Text.Pieces

/-! # Tokens, words and their variants

A token is what spaces U+0020 bound, trimmed, and a word is what blanks bound. A token
without blanks is a word (`mem_words_of_mem_tokens`), and where no other blank than the
space occurs the tokens are the words (`tokens_eq_words`). A variant ends in its token, behind
modifiers that hold no blank, so it has a blank exactly when its token has.
-/

namespace VariantClasses

open Text

/-! ## Words and tokens -/

theorem mem_words_iff {text word : Text} :
    word ∈ text.words ↔ word ∈ text.splitOnP isBlank ∧ word ≠ [] := by
  simp [words]

theorem not_blank_of_mem_words {text word : Text} (h : word ∈ text.words) :
    ∀ c ∈ word, isBlank c = false :=
  (mem_splitOnP_iff.mp (mem_words_iff.mp h).1).1

/-- The words on the two sides of a blank are the words of the text. -/
theorem mem_words_append_cons {front rest word : Text} {c : Char} (hc : isBlank c = true) :
    word ∈ words (front ++ c :: rest) ↔ word ∈ words front ∨ word ∈ words rest := by
  rw [mem_words_iff, mem_words_iff, mem_words_iff, mem_splitOnP_append_cons hc, or_and_right]

theorem mem_words_blanks_append {blanks text word : Text}
    (hblanks : ∀ c ∈ blanks, isBlank c = true) :
    word ∈ words (blanks ++ text) ↔ word ∈ words text := by
  induction blanks with
  | nil => rfl
  | cons c blanks ih =>
    have hrest := ih fun d hd => hblanks d (List.mem_cons_of_mem _ hd)
    have hcons : word ∈ words ([] ++ c :: (blanks ++ text)) ↔
        word ∈ words [] ∨ word ∈ words (blanks ++ text) :=
      mem_words_append_cons (hblanks c List.mem_cons_self)
    rw [← hrest]
    simpa [words] using hcons

theorem mem_words_append_blanks {blanks text word : Text}
    (hblanks : ∀ c ∈ blanks, isBlank c = true) :
    word ∈ words (text ++ blanks) ↔ word ∈ words text := by
  cases blanks with
  | nil => rw [List.append_nil]
  | cons c blanks =>
    have hnone : word ∈ words (blanks ++ []) ↔ word ∈ words [] :=
      mem_words_blanks_append fun d hd => hblanks d (List.mem_cons_of_mem _ hd)
    rw [List.append_nil] at hnone
    rw [mem_words_append_cons (hblanks c List.mem_cons_self), hnone]
    simp [words]

/-- Trimming keeps the words. -/
theorem mem_words_trim {text word : Text} : word ∈ words (trim text) ↔ word ∈ words text := by
  obtain ⟨before, after, htext, hbefore, hafter⟩ := exists_eq_append_trim text
  have hwords : word ∈ words (before ++ (trim text ++ after)) ↔ word ∈ words (trim text) := by
    rw [mem_words_blanks_append hbefore, mem_words_append_blanks hafter]
  rw [← hwords, ← htext]

/-- Joined by spaces, texts keep their words. -/
theorem mem_words_joinWith {texts : List Text} {word : Text} :
    word ∈ words (joinWith [' '] texts) ↔ ∃ text ∈ texts, word ∈ words text := by
  induction texts with
  | nil => simp [joinWith, words]
  | cons first rest ih =>
    cases rest with
    | nil => simp [joinWith]
    | cons second rest =>
      rw [joinWith_cons_cons, List.append_assoc, List.singleton_append,
        mem_words_append_cons (by decide), ih]
      simp

theorem words_eq_singleton {text : Text} (hne : text ≠ [])
    (hsolid : ∀ c ∈ text, isBlank c = false) : words text = [text] := by
  rw [words, List.splitOnP_eq_singleton hsolid]
  simpa using hne

theorem mem_tokens_iff {value token : Text} :
    token ∈ tokens value ↔ (∃ piece ∈ value.splitOn ' ', trim piece = token) ∧ token ≠ [] := by
  simp [tokens]

theorem bounded_append_blanks {before blanks : Text} (hblanks : ∀ c ∈ blanks, isBlank c = true)
    (hbefore : before = [] ∨ ∃ front c, isBlank c = true ∧ before = front ++ [c]) :
    before ++ blanks = [] ∨ ∃ front c, isBlank c = true ∧ before ++ blanks = front ++ [c] := by
  rcases List.eq_nil_or_concat blanks with rfl | ⟨inner, c, rfl⟩
  · simpa using hbefore
  · refine .inr ⟨before ++ inner, c, hblanks c (by simp), ?_⟩
    simp

theorem blanks_append_bounded {blanks after : Text} (hblanks : ∀ c ∈ blanks, isBlank c = true)
    (hafter : after = [] ∨ ∃ c rest, isBlank c = true ∧ after = c :: rest) :
    blanks ++ after = [] ∨ ∃ c rest, isBlank c = true ∧ blanks ++ after = c :: rest := by
  cases blanks with
  | nil => simpa using hafter
  | cons c rest => exact .inr ⟨c, rest ++ after, hblanks c List.mem_cons_self, rfl⟩

theorem mem_words_of_mem_tokens {value token : Text} (h : token ∈ tokens value)
    (htoken : ∀ c ∈ token, isBlank c = false) : token ∈ value.words := by
  obtain ⟨⟨piece, hpiece, rfl⟩, hne⟩ := mem_tokens_iff.mp h
  obtain ⟨-, before, after, hvalue, hbefore, hafter⟩ := mem_splitOnP_iff.mp hpiece
  obtain ⟨front, back, htrim, hfront, hback⟩ := exists_eq_append_trim piece
  have hspace {c : Char} (hc : (c == ' ') = true) : isBlank c = true := by
    rw [beq_iff_eq.mp hc]
    decide
  refine mem_words_iff.mpr ⟨mem_splitOnP_iff.mpr ⟨htoken, before ++ front, back ++ after, ?_,
    bounded_append_blanks hfront ?_, blanks_append_bounded hback ?_⟩, hne⟩
  · calc
      value = before ++ (piece ++ after) := hvalue
      _ = before ++ ((front ++ (trim piece ++ back)) ++ after) := by rw [← htrim]
      _ = before ++ front ++ (trim piece ++ (back ++ after)) := by simp only [List.append_assoc]
  · exact hbefore.imp_right fun ⟨inner, c, hc, h⟩ => ⟨inner, c, hspace hc, h⟩
  · exact hafter.imp_right fun ⟨c, rest, hc, h⟩ => ⟨c, rest, hspace hc, h⟩

theorem tokens_eq_words {value : Text} (h : ∀ c ∈ value, isBlank c = true → c = ' ') :
    tokens value = value.words := by
  have hblank : ∀ c ∈ value, (c == ' ') = isBlank c := by
    intro c hc
    by_cases hspace : c = ' '
    · subst hspace
      decide
    · rw [beq_false_of_ne hspace, eq_comm, ← Bool.not_eq_true]
      exact fun hbl => hspace (h c hc hbl)
  have hsplit : value.splitOn ' ' = value.splitOnP isBlank := splitOnP_congr hblank
  have htrim : (value.splitOnP isBlank).map trim = value.splitOnP isBlank := by
    refine (List.map_congr_left fun piece hpiece => ?_).trans (List.map_id _)
    have hfree := (mem_splitOnP_iff.mp hpiece).1
    exact trim_eq_self (fun c hc => hfree c (List.mem_of_head? hc))
      fun c hc => hfree c (List.mem_of_getLast? hc)
  rw [tokens, hsplit, htrim, words]

/-! ## Variants -/

/-- A variant is its token behind modifiers. -/
theorem exists_of_mem_variants {depth : Nat} {modifiers : List Text} {token class_ : Text}
    (h : class_ ∈ variants depth modifiers token) :
    ∃ front, class_ = underModifier front token ∧
      ∀ c ∈ front, c = ':' ∨ ∃ modifier ∈ modifiers, c ∈ modifier := by
  rcases List.mem_cons.mp h with rfl | h
  · refine ⟨_, rfl, fun c hc => ?_⟩
    exact (mem_joinWith hc).imp_left List.mem_singleton.mp
  · split at h
    next =>
      obtain ⟨modifier, hmodifier, rfl⟩ := List.mem_map.mp h
      exact ⟨modifier, rfl, fun c hc => .inr ⟨modifier, List.mem_of_mem_take hmodifier, hc⟩⟩
    next => cases h

theorem infix_of_mem_modifiersOf {chain modifier : Text} (h : modifier ∈ modifiersOf chain) :
    modifier <:+: chain ∧ ':' ∉ modifier ∧ modifier ≠ [] := by
  obtain ⟨hmem, hne⟩ := List.mem_filter.mp h
  exact ⟨infix_of_mem_splitOn hmem, not_mem_of_mem_splitOn hmem, by simpa using hne⟩

/-- A variant has the characters of its token, where modifiers and colons have none. -/
theorem exists_mem_iff_of_mem_variants {p : Char → Bool} (hcolon : p ':' = false) {depth : Nat}
    {modifiers : List Text} (hmodifiers : ∀ modifier ∈ modifiers, ∀ c ∈ modifier, p c = false)
    {token class_ : Text} (h : class_ ∈ variants depth modifiers token) :
    (∃ c ∈ class_, p c = true) ↔ ∃ c ∈ token, p c = true := by
  obtain ⟨front, rfl, hfront⟩ := exists_of_mem_variants h
  constructor
  · intro h
    obtain ⟨c, hc, hp⟩ := h
    rcases List.mem_append.mp hc with hc | hc
    · rcases hfront c hc with rfl | ⟨modifier, hmem, hc⟩
      · rw [hcolon] at hp
        cases hp
      · rw [hmodifiers modifier hmem c hc] at hp
        cases hp
    · rcases List.mem_cons.mp hc with rfl | hc
      · rw [hcolon] at hp
        cases hp
      · exact ⟨c, hc, hp⟩
  · intro h
    obtain ⟨c, hc, hp⟩ := h
    exact ⟨c, List.mem_append_right _ (List.mem_cons_of_mem _ hc), hp⟩

/-! ## Classes of an attribute -/

/-- The classes that an attribute generates, each where it is first produced. -/
def Attribute.generatedClasses (depth : Nat) (attr : Attribute) : List Text :=
  ((tokens attr.quotedText).flatMap (variants depth attr.modifiers)).eraseDups

theorem writtenClasses_eq_generatedClasses (depth : Nat) (attr : Attribute) :
    attr.writtenClasses depth = attr.generatedClasses depth := by
  rw [Attribute.writtenClasses, distinct_eq_eraseDups, Attribute.generatedClasses,
    Attribute.produced, List.map_flatMap]
  congr 2
  funext token
  rw [List.map_map]
  exact List.map_id _

theorem mem_writtenClasses_iff {depth : Nat} {attr : Attribute} {class_ : Text} :
    class_ ∈ attr.writtenClasses depth ↔ ∃ token ∈ tokens attr.quotedText,
      class_ ∈ variants depth attr.modifiers token := by
  rw [writtenClasses_eq_generatedClasses, Attribute.generatedClasses, List.mem_eraseDups,
    List.mem_flatMap]

theorem not_mem_space_of_mem_tokens {value token : Text} (h : token ∈ tokens value) :
    ' ' ∉ token := by
  obtain ⟨⟨piece, hpiece, rfl⟩, -⟩ := mem_tokens_iff.mp h
  exact fun hspace => not_mem_of_mem_splitOn hpiece ((trim_isInfix piece).subset hspace)

theorem ne_nil_of_mem_variants {depth : Nat} {modifiers : List Text} {token class_ : Text}
    (h : class_ ∈ variants depth modifiers token) : class_ ≠ [] := by
  obtain ⟨front, rfl, -⟩ := exists_of_mem_variants h
  simp [underModifier]

/-- Joined by spaces, classes without spaces are found again. -/
theorem filter_splitOn_joinWith {classes : List Text} (hspace : ∀ class_ ∈ classes, ' ' ∉ class_)
    (hne : [] ∉ classes) :
    ((joinWith [' '] classes).splitOn ' ').filter (!·.isEmpty) = classes := by
  cases classes with
  | nil => rfl
  | cons class_ rest =>
    rw [joinWith, List.splitOn_intercalate ' ' hspace (List.cons_ne_nil class_ rest)]
    apply List.filter_eq_self.mpr
    intro other hother
    cases other with
    | nil => exact absurd hother hne
    | cons c tail => rfl

theorem written_double (name body : Text) :
    Attribute.written ⟨name, none, .double body⟩ = doubleQuoted name body := by
  simp [Attribute.written, Value.written, doubleQuoted]

end VariantClasses
