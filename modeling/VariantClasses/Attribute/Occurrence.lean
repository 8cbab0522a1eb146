import VariantClasses.Attribute.Basic
import VariantClasses.Scan

/-! # Occurrences of attributes in a text

An attribute counts where a blank or nothing precedes it. A scan finds the attributes
of a pattern from left to right.
-/

namespace VariantClasses

/-- Reads what `body?` reads behind a boundary: nothing at the start of the text, or
one blank. -/
def afterBoundary? {α : Type} (body? : Text → Option (α × Text)) (atStart : Bool) (text : Text) :
    Option ((Text × α) × Text) :=
  let unled := if atStart then (body? text).map fun (x, rest) => (([], x), rest) else none
  unled.or <|
    match text with
    | c :: after =>
      if isBlank c then (body? after).map fun (x, rest) => (([c], x), rest) else none
    | [] => none

theorem eq_append_of_afterBoundary? {α : Type} {body? : Text → Option (α × Text)}
    {written : α → Text} {atStart : Bool} {text rest lead : Text} {x : α}
    (hbody : ∀ {text rest x}, body? text = some (x, rest) → text = written x ++ rest)
    (h : afterBoundary? body? atStart text = some ((lead, x), rest)) :
    text = (lead ++ written x) ++ rest := by
  unfold afterBoundary? at h
  rcases Option.or_eq_some_iff.mp h with h | ⟨_, h⟩
  · split at h
    · obtain ⟨⟨y, after⟩, hy, hpair⟩ := Option.map_eq_some_iff.mp h
      simp only [Prod.mk.injEq] at hpair
      obtain ⟨⟨rfl, rfl⟩, rfl⟩ := hpair
      simpa using hbody hy
    · simp at h
  · split at h
    next c after =>
      split at h
      · obtain ⟨⟨y, tail⟩, hy, hpair⟩ := Option.map_eq_some_iff.mp h
        simp only [Prod.mk.injEq] at hpair
        obtain ⟨⟨rfl, rfl⟩, rfl⟩ := hpair
        simpa using hbody hy
      · simp at h
    next => simp at h

/-- An attribute with the boundary before it. -/
structure Occurrence where
  /-- The blank before the attribute, or nothing at the start of the text. -/
  lead : Text
  attr : Attribute
  deriving DecidableEq

def Occurrence.written (occurrence : Occurrence) : Text :=
  occurrence.lead ++ occurrence.attr.written

/-- Recognises the attributes of a pattern behind a boundary. -/
def Pattern.reader (pattern : Pattern) : Reader Occurrence where
  read? atStart text :=
    (afterBoundary? pattern.attribute? atStart text).map fun ((lead, attr), rest) =>
      (⟨lead, attr⟩, rest)
  written := Occurrence.written
  eq_append h := by
    obtain ⟨⟨⟨lead, attr⟩, rest⟩, hfound, hpair⟩ := Option.map_eq_some_iff.mp h
    obtain ⟨rfl, rfl⟩ := Prod.mk.inj hpair
    exact eq_append_of_afterBoundary? Pattern.eq_append hfound
  written_ne_nil _ := by
    simp [Occurrence.written, Attribute.written_ne_nil]

def Pattern.occurrences (pattern : Pattern) (text : Text) : List Occurrence :=
  pattern.reader.findAll text

end VariantClasses
