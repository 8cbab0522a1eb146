import VariantClasses.Artifact
import VariantClasses.Collect
import VariantClasses.Proofs.Attribute.Reading
import VariantClasses.Proofs.Expand.Tokens

/-! # Reading the artifact back

The artifact holds one plain attribute and no modified one, whatever its classes look like, as
long as no quote stands in them (`occurrences_plain_renderArtifact`,
`occurrences_modified_renderArtifact`). So the classes that a scanner finds in it are the words
of its one value, which are the listed classes (`collect_renderArtifact`).
-/

namespace VariantClasses

open Text

/-! ## Text without quotes -/

/-- Whether `c` can stand before and behind a quoted value. -/
def isQuote (c : Char) : Bool :=
  c == '"' || c == '\''

/-- What may stand where no quote may is no quote. -/
theorem isQuote_eq_false_of {allowed : Char → Bool} (hdouble : allowed '"' = false)
    (hsingle : allowed '\'' = false) {c : Char} (h : allowed c = true) : isQuote c = false := by
  rw [isQuote, Bool.or_eq_false_iff, beq_eq_false_iff_ne, beq_eq_false_iff_ne]
  constructor
  · rintro rfl
    rw [hdouble] at h
    cases h
  · rintro rfl
    rw [hsingle] at h
    cases h

/-- The text up to the first quote is determined. -/
theorem eq_of_append_quote {front other rest more : Text} {quote mark : Char}
    (hfront : ∀ c ∈ front, isQuote c = false) (hother : ∀ c ∈ other, isQuote c = false)
    (hquote : isQuote quote = true) (hmark : isQuote mark = true)
    (h : front ++ quote :: rest = other ++ mark :: more) : front = other := by
  have htake {text tail : Text} {c : Char} (htext : ∀ d ∈ text, isQuote d = false)
      (hc : isQuote c = true) : (text ++ c :: tail).takeWhile (!isQuote ·) = text := by
    rw [List.takeWhile_append_of_pos (by simpa using htext),
      List.takeWhile_cons_of_neg (by simp [hc]), List.append_nil]
  rw [← htake hfront hquote, h, htake hother hmark]

/-- Where a modified attribute is recognised, the first quote follows an equals sign. -/
theorem Pattern.exists_of_read?_modified {name text rest : Text}
    (hname : isAttributeName name = true) {atStart : Bool} {found : Occurrence}
    (h : (Pattern.modified name).reader.read? atStart text = some (found, rest)) :
    ∃ front quote more, text = (front ++ ['=']) ++ quote :: more ∧
      (∀ c ∈ front ++ ['='], isQuote c = false) ∧ isQuote quote = true := by
  obtain ⟨hlead, ⟨hattr, ⟨chain, hchain, hcontinues⟩, -, hquoted⟩, rfl⟩ :=
    (reader_read?_eq_some_iff hname).mp h
  obtain ⟨body, hbody⟩ := Option.isSome_iff_exists.mp hquoted
  obtain ⟨quote, hquote, hwritten⟩ := exists_quote hbody
  refine ⟨found.lead ++ (name ++ ':' :: chain), quote, body ++ quote :: rest, ?_, ?_, ?_⟩
  · have hattr : found.attr.name = name := hattr
    simp [Occurrence.written, Attribute.written, hattr, hchain, hwritten]
  · obtain ⟨_, _, -, hplain⟩ := exists_eq_cons_of_isAttributeName hname
    intro c hc
    simp only [List.mem_append, List.mem_cons, List.not_mem_nil, or_false] at hc
    rcases hc with (hc | hc | rfl | hc) | rfl
    · exact isQuote_eq_false_of (by decide) (by decide) (hlead.blanks c hc)
    · exact isQuote_eq_false_of (by decide) (by decide) (hplain c hc)
    · decide
    · exact isQuote_eq_false_of (by decide) (by decide) (hcontinues c hc)
    · decide
  · rcases hquote with rfl | rfl <;> decide

/-- No modified attribute starts in a text without quotes when a quote follows it but no equals
sign stands at its end. -/
theorem Pattern.modified_passesOver_unquoted {name front rest : Text}
    (hname : isAttributeName name = true) (hfront : ∀ c ∈ front, isQuote c = false)
    (hlast : front.getLast? ≠ some '=') {quote : Char} (hquote : isQuote quote = true)
    (atStart : Bool) : (Pattern.modified name).reader.PassesOver atStart front (quote :: rest) := by
  rintro before c after rfl
  apply Option.eq_none_iff_forall_ne_some.mpr
  intro ⟨found, tail⟩ hread
  obtain ⟨stem, mark, more, htext, hstem, hmark⟩ := Pattern.exists_of_read?_modified hname hread
  have heq : c :: after = stem ++ ['='] :=
    eq_of_append_quote (fun d hd => hfront d (List.mem_append_right _ hd)) hstem hquote hmark htext
  apply hlast
  rw [heq, ← List.append_assoc, List.getLast?_concat]

/-! ## The document -/

/-- A class without blanks and quotes, which can stand on a line of the artifact. -/
def IsPlainClass (class_ : Text) : Prop :=
  class_ ≠ [] ∧ ∀ c ∈ class_, isBlank c = false ∧ c ≠ '"' ∧ c ≠ '\''

instance (class_ : Text) : Decidable (IsPlainClass class_) :=
  @instDecidableAnd _ _ inferInstance (List.decidableBAll _ class_)

/-- The value of the artifact's attribute. -/
def artifactBody (classes : ClassSet) : Text :=
  if classes.isEmpty then [] else '\n' :: classes.toList.flatMap artifactLine

/-- The artifact's attribute, with the blank before it. -/
def artifactAttribute (classes : ClassSet) : Occurrence :=
  ⟨[' '], AttributeName.class_.text, none, .double (artifactBody classes)⟩

/-- What stands before the artifact's attribute. -/
def artifactFront : Text :=
  artifactHeader ++ "<div".toList

/-- What stands behind the artifact's attribute. -/
def artifactBack : Text :=
  "></div>\n".toList

theorem renderArtifact_eq (classes : ClassSet) :
    renderArtifact classes =
      artifactFront ++ ((artifactAttribute classes).written ++ artifactBack) := by
  have hopening : "<div class=\"".toList =
      "<div".toList ++ ([' '] ++ (AttributeName.class_.text ++ ['=', '"'])) := rfl
  have hclosing : "\"></div>\n".toList = ['"'] ++ artifactBack := rfl
  rw [renderArtifact, ← artifactBody, hopening, hclosing, artifactFront]
  simp only [artifactAttribute, Occurrence.written, Attribute.written, Value.written,
    Option.elim_none, List.append_assoc, List.cons_append, List.nil_append]

variable {classes : ClassSet}

theorem mem_artifactLine {class_ : Text} {c : Char} (h : c ∈ artifactLine class_) :
    c = ' ' ∨ c = '\n' ∨ c ∈ class_ := by
  simp only [artifactLine, List.mem_append, List.mem_singleton] at h
  rcases h with (h | h) | h
  · exact .inl (by simpa using h)
  · exact .inr (.inr h)
  · exact .inr (.inl h)

theorem isQuote_of_mem_artifactBody (h : ∀ class_ ∈ classes, IsPlainClass class_) :
    ∀ c ∈ artifactBody classes, isQuote c = false := by
  intro c hc
  rw [artifactBody] at hc
  split at hc
  next => cases hc
  next =>
    rcases List.mem_cons.mp hc with rfl | hc
    · decide
    · obtain ⟨class_, hclass, hline⟩ := List.mem_flatMap.mp hc
      rcases mem_artifactLine hline with rfl | rfl | hmem
      · decide
      · decide
      · obtain ⟨-, hdouble, hsingle⟩ := (h class_ hclass).2 c hmem
        simp [isQuote, hdouble, hsingle]

/-- Every line ends in a line break. -/
theorem getLast?_artifactBody_ne (classes : ClassSet) :
    (artifactBody classes).getLast? ≠ some '=' := by
  rw [artifactBody]
  split
  next => simp
  next =>
    rcases List.eq_nil_or_concat classes.toList with hnil | ⟨front, last, hlast⟩
    · simp [hnil]
    · simp [hlast, artifactLine, List.getLast?_cons]

/-- The words of the lines are the classes. -/
theorem mem_words_flatMap_artifactLine {listed : List Text}
    (h : ∀ class_ ∈ listed, IsPlainClass class_) {word : Text} :
    word ∈ words (listed.flatMap artifactLine) ↔ word ∈ listed := by
  induction listed with
  | nil => simp [words]
  | cons class_ listed ih =>
    obtain ⟨⟨hne, hsolid⟩, hlisted⟩ := List.forall_mem_cons.mp h
    have hclass : words class_ = [class_] := words_eq_singleton hne fun c hc => (hsolid c hc).1
    have hline : (class_ :: listed).flatMap artifactLine =
        [' ', ' '] ++ (class_ ++ '\n' :: listed.flatMap artifactLine) := by
      simp [artifactLine]
    rw [hline, mem_words_blanks_append (List.all_eq_true.mp (by decide)),
      mem_words_append_cons (by decide), hclass, ih hlisted, List.mem_singleton, List.mem_cons]

theorem mem_words_artifactBody (h : ∀ class_ ∈ classes, IsPlainClass class_) {word : Text} :
    word ∈ words (artifactBody classes) ↔ word ∈ classes := by
  rw [artifactBody]
  split
  next hempty =>
    have hnil : classes.toList = [] := List.isEmpty_iff.mp hempty
    simp [words, ClassSet.mem_def, hnil]
  next =>
    rw [← List.singleton_append, mem_words_blanks_append (List.all_eq_true.mp (by decide)),
      mem_words_flatMap_artifactLine h, ClassSet.mem_def]

/-! ## What a scan finds -/

/-- The one plain attribute of the artifact is found. -/
theorem occurrences_plain_renderArtifact (h : ∀ class_ ∈ classes, IsPlainClass class_) :
    (Pattern.plain AttributeName.class_.text).occurrences (renderArtifact classes) =
      [artifactAttribute classes] := by
  let plain : Pattern := .plain AttributeName.class_.text
  have hkey : plain.reader.NeedsKey (plain.name ++ [plain.form.mark]) :=
    Pattern.reader_needsKey AttributeName.class_.plain
  rw [renderArtifact_eq]
  apply Reader.findAll_eq_singleton
  · apply hkey.passesOver
    · decide +kernel
    · intro c hc
      obtain rfl : ' ' = c := Option.some.inj hc
      decide
  · refine (Pattern.reader_read?_eq_some_iff AttributeName.class_.plain).mpr
      ⟨.inr ⟨' ', by decide, rfl⟩, ⟨rfl, rfl, ?_⟩, rfl⟩
    intro hquote
    exact absurd (isQuote_of_mem_artifactBody h _ hquote) (by decide)
  · apply hkey.passesOver
    · decide +kernel
    · simp

/-- No modified attribute is found in the artifact. -/
theorem occurrences_modified_renderArtifact (h : ∀ class_ ∈ classes, IsPlainClass class_) :
    (Pattern.modified AttributeName.class_.text).occurrences (renderArtifact classes) = [] := by
  let modified : Pattern := .modified AttributeName.class_.text
  have hkey : modified.reader.NeedsKey (modified.name ++ [modified.form.mark]) :=
    Pattern.reader_needsKey AttributeName.class_.plain
  have htext : renderArtifact classes =
      (artifactFront ++ " class=".toList) ++
        (['"'] ++ (artifactBody classes ++ '"' :: artifactBack)) := by
    simp [renderArtifact_eq, artifactAttribute, Occurrence.written, Attribute.written,
      Value.written, AttributeName.class_]
  rw [htext]
  apply Reader.findAll_eq_nil_iff.mpr
  refine Reader.passesOver_append_iff.mpr ⟨hkey.passesOver ?_ ?_ _, ?_⟩
  · decide +kernel
  · intro c hc
    obtain rfl : '"' = c := Option.some.inj hc
    decide
  · have hquote : ∀ c ∈ ['"'], isBlank c = false := List.forall_mem_singleton.mpr (by decide)
    refine Reader.passesOver_append_iff.mpr ⟨hkey.passesOver_of_not_blank hquote _, ?_⟩
    refine Reader.passesOver_append_iff.mpr ⟨?_, hkey.passesOver ?_ (by simp) _⟩
    · rw [List.append_nil]
      exact Pattern.modified_passesOver_unquoted AttributeName.class_.plain
        (isQuote_of_mem_artifactBody h) (getLast?_artifactBody_ne classes) (by decide) _
    · decide +kernel

/-- The classes collected from the artifact are those that it lists, and none of them is taken for
a variant. -/
theorem collect_renderArtifact (depth : Nat) (h : ∀ class_ ∈ classes, IsPlainClass class_) :
    collect depth (.plain AttributeName.class_.text) (.modified AttributeName.class_.text)
      (renderArtifact classes) = ⟨classes, ∅⟩ := by
  have hvariants : ClassSet.ofList [] = ∅ := rfl
  have hall : ClassSet.ofList (words (artifactBody classes)) = classes := by
    ext class_
    rw [ClassSet.mem_ofList, mem_words_artifactBody h]
  simp [collect, occurrences_plain_renderArtifact h, occurrences_modified_renderArtifact h,
    artifactAttribute, Attribute.plainClasses, Value.literal?, hall, hvariants]

/-- Classes that look like attributes themselves. -/
theorem collect_renderArtifact_of_attributes :
    let classes := ClassSet.ofList ["class=\x7b`x`\x7d".toList, "class:a=".toList, "hover:x".toList]
    (∀ class_ ∈ classes, IsPlainClass class_) ∧
      collect defaultDepth (.plain AttributeName.class_.text)
        (.modified AttributeName.class_.text) (renderArtifact classes) = ⟨classes, ∅⟩ := by
  intro classes
  have hplain : ∀ class_ ∈ classes, IsPlainClass class_ := by
    intro class_ hclass
    simp only [classes, ClassSet.mem_ofList, List.mem_cons, List.not_mem_nil, or_false] at hclass
    rcases hclass with rfl | rfl | rfl <;> decide
  exact ⟨hplain, collect_renderArtifact defaultDepth hplain⟩

end VariantClasses
