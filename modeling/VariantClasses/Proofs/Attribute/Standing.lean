import VariantClasses.Proofs.Attribute.Reading
import VariantClasses.Proofs.Scan.Places

/-! # Where attributes stand

An attribute stands at a place of a text when the text goes on there with a boundary, the
attribute's name, its chain if it has one, `=` and a closed value. At one place no two
attributes of a pattern stand (`Pattern.StandsAt.unique`). A scan finds attributes only
where they stand, in order and without overlap, and one that it does not find starts inside
of one that it found before (`occurrences_stand`).
-/

namespace VariantClasses

/-- Behind `before` the text goes on with this occurrence of an attribute of the pattern. -/
structure Pattern.StandsAt (pattern : Pattern) (text before : Text) (found : Occurrence) :
    Prop where
  lead : IsBoundary before.isEmpty found.lead
  admits : pattern.Admits found.attr
  goes_on : ∃ rest, text = before ++ (found.written ++ rest)

namespace Pattern

variable {pattern : Pattern} {text before : Text} {found : Occurrence}

/-- What the reader of a pattern recognises at a place is what stands there. -/
theorem standsAt_iff_exists_read (hname : isAttributeName pattern.name = true) :
    pattern.StandsAt text before found ↔ ∃ rest, text = before ++ (found.written ++ rest) ∧
      pattern.reader.read? before.isEmpty (found.written ++ rest) = some (found, rest) := by
  constructor
  · rintro ⟨hlead, hadmits, rest, htext⟩
    exact ⟨rest, htext, (reader_read?_eq_some_iff hname).mpr ⟨hlead, hadmits, rfl⟩⟩
  · rintro ⟨rest, htext, hread⟩
    obtain ⟨hlead, hadmits, -⟩ := (reader_read?_eq_some_iff hname).mp hread
    exact ⟨hlead, hadmits, rest, htext⟩

/-- At a place, at most one attribute of a pattern stands. -/
theorem StandsAt.unique (hname : isAttributeName pattern.name = true) {other : Occurrence}
    (h : pattern.StandsAt text before found) (hother : pattern.StandsAt text before other) :
    found = other := by
  obtain ⟨rest, htext, hread⟩ := (standsAt_iff_exists_read hname).mp h
  obtain ⟨behind, hbehind, hread'⟩ := (standsAt_iff_exists_read hname).mp hother
  rw [← List.append_cancel_left (htext.symm.trans hbehind), hread] at hread'
  exact (Prod.mk.inj (Option.some.inj hread')).1

theorem standsAt_of_findsAt (hname : isAttributeName pattern.name = true)
    (h : pattern.reader.FindsAt text before found) : pattern.StandsAt text before found :=
  (standsAt_iff_exists_read hname).mpr h.exists_read

/-- Where an attribute stands, a scan finds it, or it has found one around the place. -/
theorem StandsAt.findsAt_or_isInside (hname : isAttributeName pattern.name = true)
    (h : pattern.StandsAt text before found) :
    pattern.reader.FindsAt text before found ∨
      ∃ start earlier place, pattern.reader.FindsAt text start earlier ∧
        before = start ++ place ∧ Text.IsInside place earlier.written := by
  obtain ⟨rest, rfl, hread⟩ := (standsAt_iff_exists_read hname).mp h
  exact Reader.exists_findsAt hread

/-- Attributes are found in order, and each ends before the next one starts. -/
theorem places_increase (pattern : Pattern) (text : Text) :
    (pattern.reader.findPlaces text).Pairwise fun earlier later =>
      earlier.1.length < later.1.length ∧ earlier.1 ++ earlier.2.written <+: later.1 := by
  refine (Reader.pairwise_findPlaces text).imp fun {earlier later} hends => ⟨?_, hends⟩
  have hwritten : 0 < earlier.2.written.length :=
    List.length_pos_iff.mpr (by simp [Occurrence.written, Attribute.written_ne_nil])
  have hlength : (earlier.1 ++ earlier.2.written).length ≤ later.1.length := hends.length_le
  rw [List.length_append] at hlength
  omega

end Pattern

/-- Matching the attributes of a name, in either form, is sound, unambiguous and complete.
What a scan finds stands at the places where it finds it, and each ends before the next one
starts. At one place no two attributes stand. Where one stands, it is found, or the place lies
inside of one that was found before. -/
theorem occurrences_stand (name : AttributeName) (form : Form) (text : Text) :
    let pattern : Pattern := ⟨name.text, form⟩
    let places := pattern.reader.findPlaces text
    places.map Prod.snd = pattern.occurrences text ∧
    (places.Pairwise fun earlier later =>
      earlier.1.length < later.1.length ∧ earlier.1 ++ earlier.2.written <+: later.1) ∧
    (∀ before found, (before, found) ∈ places → pattern.StandsAt text before found) ∧
    (∀ before found other, pattern.StandsAt text before found →
      pattern.StandsAt text before other → found = other) ∧
    ∀ before found, pattern.StandsAt text before found → (before, found) ∈ places ∨
      ∃ start earlier place, (start, earlier) ∈ places ∧ before = start ++ place ∧
        Text.IsInside place earlier.written := by
  intro pattern places
  refine ⟨Reader.map_snd_findPlaces text, pattern.places_increase text, ?_, ?_, ?_⟩
  · intro before found hmem
    exact Pattern.standsAt_of_findsAt name.plain (Reader.mem_findPlaces_iff.mp hmem)
  · intro before found other h hother
    exact h.unique name.plain hother
  · intro before found h
    rcases h.findsAt_or_isInside name.plain with hfinds | ⟨start, earlier, place, hfinds, hplace⟩
    · exact .inl (Reader.mem_findPlaces_iff.mpr hfinds)
    · exact .inr ⟨start, earlier, place, Reader.mem_findPlaces_iff.mpr hfinds, hplace⟩

/-- The second of these attributes is written inside of the first one's value. -/
example :
    ((Pattern.modified AttributeName.class_.text).reader.findPlaces
      "<p class:a=\"x class:b='y'\" class:c='z'>".toList).map (·.1.length) = [2, 26] := by
  decide +kernel

end VariantClasses
