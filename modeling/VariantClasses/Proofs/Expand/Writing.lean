import VariantClasses.Proofs.Expand.ReadBack

/-! # What expanding writes and records

Expanding replaces the attributes that have a modifier and keeps every other character. The
value that it writes lists, without repetition and in the order in which they are first
produced, the classes that the tokens of the old value give under the chain, and the classes
of all but the malformed tokens are recorded (`expand_writes`).
-/

namespace VariantClasses

open Text

/-! ## The classes of a token -/

/-- A token gives itself under the whole chain and, when there is more than one modifier,
itself under each of the first ones, of which there may be fewer than the depth allows. -/
theorem variants_eq (depth : Nat) (modifiers : List Text) (token : Text) :
    variants depth modifiers token = (joinWith [':'] modifiers ++ ':' :: token) ::
      if 1 < modifiers.length then
        (modifiers.take (min depth modifiers.length)).map (· ++ ':' :: token)
      else [] := by
  rw [← List.take_eq_take_min]
  rfl

/-! ## The written value -/

/-- The classes that the tokens of an attribute's value give, as they are produced. -/
def Attribute.tokenClasses (depth : Nat) (attr : Attribute) : List Text :=
  (tokens attr.quotedText).flatMap (variants depth attr.modifiers)

/-- The listed classes stand in the order in which the tokens first give them. -/
theorem ascending_writtenClasses (depth : Nat) (attr : Attribute) :
    Ascending (placeOf (attr.tokenClasses depth)) (attr.writtenClasses depth) := by
  rw [writtenClasses_eq_generatedClasses]
  exact ascending_eraseDups _

/-! ## What is recorded -/

theorem isRecorded_eq_true_iff {depth : Nat} {modifiers : List Text} {class_ token : Text}
    (hclass : class_ ∈ variants depth modifiers token) (hne : token ≠ []) :
    isRecorded class_ token = true ↔
      ¬(∃ start, token = start ++ [':']) ∧ ¬∃ inner, token = '\'' :: (inner ++ ['\'']) := by
  rw [← Bool.not_eq_false, isRecorded_eq_false_iff hclass hne, not_or]

/-- The modifiers of an attribute are the parts of its chain between colons, without the empty
ones. -/
theorem modifiers_eq (attr : Attribute) :
    attr.modifiers = ((attr.chain.getD []).splitOn ':').filter (!·.isEmpty) := by
  rw [Attribute.modifiers]
  cases attr.chain with
  | none => rfl
  | some chain => rfl

/-- Expanding the attributes of a name keeps the text but for the attributes whose chain has a
part. Of these the lead stays, and behind it stands an attribute of the new name with a
value between double quotes, whatever was recorded before. The pieces of that value between
spaces are the classes that the tokens of the old one give under the chain, each once and in
the order in which they are first given. Beside the classes that were recorded before, those
are recorded that a token gives which does not end in a colon and does not stand between
single quotes. -/
theorem expand_writes (name : AttributeName) (depth : Nat) (output text : Text) :
    let modified := Pattern.modified name.text
    let pieces := modified.reader.cut true text
    let partsOf (attr : Attribute) : List Text :=
      ((attr.chain.getD []).splitOn ':').filter (!·.isEmpty)
    let tokensOf (attr : Attribute) : List Text :=
      ((attr.quotedText.splitOn ' ').map trim).filter (!·.isEmpty)
    let classesOf (attr : Attribute) (token : Text) : List Text :=
      (joinWith [':'] (partsOf attr) ++ ':' :: token) ::
        if 1 < (partsOf attr).length then
          ((partsOf attr).take (min depth (partsOf attr).length)).map (· ++ ':' :: token)
        else []
    ∃ body : Attribute → Text,
      pieces.flatMap modified.reader.pieceWritten = text ∧
      (∀ produced, (expand depth modified output produced text).text =
        pieces.flatMap (Piece.replaced fun found =>
          if partsOf found.attr = [] then found.written
          else found.lead ++ (output ++ '=' :: '"' :: (body found.attr ++ ['"'])))) ∧
      (∀ found ∈ modified.occurrences text, partsOf found.attr ≠ [] →
        let given := (tokensOf found.attr).flatMap (classesOf found.attr)
        let classes := ((body found.attr).splitOn ' ').filter (!·.isEmpty)
        classes.Nodup ∧ (∀ class_, class_ ∈ classes ↔ class_ ∈ given) ∧
          Ascending (placeOf given) classes) ∧
      ∀ produced class_, class_ ∈ (expand depth modified output produced text).produced ↔
        class_ ∈ produced ∨ ∃ found ∈ modified.occurrences text, partsOf found.attr ≠ [] ∧
          ∃ token ∈ tokensOf found.attr, class_ ∈ classesOf found.attr token ∧
            ¬(∃ start, token = start ++ [':']) ∧ ¬∃ inner, token = '\'' :: (inner ++ ['\'']) := by
  intro modified pieces partsOf tokensOf classesOf
  have hparts (attr : Attribute) : attr.modifiers = partsOf attr := modifiers_eq attr
  have htokens (attr : Attribute) : tokens attr.quotedText = tokensOf attr := rfl
  have hclassesOf (attr : Attribute) : variants depth attr.modifiers = classesOf attr := by
    funext token
    rw [variants_eq, hparts]
  refine ⟨fun attr => joinWith [' '] (attr.writtenClasses depth),
    modified.reader.cut_written true text, fun produced => ?_, ?_, ?_⟩
  · simp only [expand_text, doubleQuoted_eq, hparts, pieces]
  · intro found hfound _ given classes
    have hclasses : classes = found.attr.writtenClasses depth :=
      filter_splitOn_writtenClasses name.plain hfound depth
    have hgiven : given = found.attr.tokenClasses depth := by
      rw [Attribute.tokenClasses, hclassesOf, htokens]
    have hascending := ascending_writtenClasses depth found.attr
    rw [hclasses, hgiven]
    refine ⟨hascending.nodup, fun class_ => ?_, hascending⟩
    rw [mem_writtenClasses_iff, Attribute.tokenClasses, List.mem_flatMap]
  · intro produced class_
    rw [mem_expand_produced_iff]
    refine or_congr_right (exists_congr fun found => and_congr_right fun _ => ?_)
    rw [hparts, htokens]
    refine and_congr_right fun _ => exists_congr fun token => and_congr_right fun htoken => ?_
    rw [← hparts, hclassesOf, ← hclassesOf]
    exact and_congr_right fun hclass =>
      isRecorded_eq_true_iff hclass (mem_tokens_iff.mp (htokens found.attr ▸ htoken)).2

/-- A repeated part and a repeated token give no class twice, a token between single quotes is not
recorded, and an attribute without a part stays. -/
theorem expand_writes_of_repeated_parts :
    let modified := Pattern.modified AttributeName.class_.text
    let text := "<p class:a:a=\"x  'y' x\" class::='z'>".toList
    let found : Occurrence :=
      ⟨[' '], ⟨"class".toList, some "a:a".toList, .double "x  'y' x".toList⟩⟩
    let expanded := expand defaultDepth modified "className".toList ∅ text
    found ∈ modified.occurrences text ∧
      expanded.text = "<p className=\"a:a:x a:x a:a:'y' a:'y'\" class::='z'>".toList ∧
      (∃ body : Text, expanded.text =
          "<p className=\"".toList ++ (body ++ "\" class::='z'>".toList) ∧
        ((body.splitOn ' ').filter (!·.isEmpty)).Nodup ∧
        "a:a:'y'".toList ∈ (body.splitOn ' ').filter (!·.isEmpty)) ∧
      "a:x".toList ∈ expanded.produced ∧ "a:'y'".toList ∉ expanded.produced := by
  intro modified text found expanded
  have hfound : found ∈ modified.occurrences text := by decide +kernel
  obtain ⟨body, -, htext, hclasses, hproduced⟩ :=
    expand_writes .class_ defaultDepth "className".toList text
  obtain ⟨hnodup, hmem, -⟩ := hclasses found hfound (by decide)
  refine ⟨hfound, by decide +kernel, ⟨body found.attr, ?_, hnodup, (hmem _).mpr (by decide)⟩,
    (hproduced ∅ _).mpr (.inr ⟨found, hfound, by decide, ['x'], by decide, by decide, ?_, ?_⟩),
    by decide +kernel⟩
  · let left : Occurrence := ⟨[' '], ⟨"class".toList, some [':'], .single ['z']⟩⟩
    have hpieces : modified.reader.cut true text =
        [.other '<', .other 'p', .found found, .found left, .other '>'] := by decide +kernel
    rw [htext, hpieces]
    simp only [List.flatMap_cons, List.flatMap_nil, Piece.replaced]
    rw [if_neg (by decide), if_pos (by decide)]
    simp only [List.append_assoc, List.cons_append, List.nil_append]
    rfl
  · rintro ⟨start, h⟩
    simpa using congrArg List.getLast? h
  · rintro ⟨inner, h⟩
    simp at h

end VariantClasses
