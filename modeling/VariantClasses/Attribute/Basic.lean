import VariantClasses.Attribute.Value
import VariantClasses.Text.Blank

/-! # Attributes

An attribute is written `name=value`, or `name:chain=value` when a chain of
modifiers goes with it; a value behind a chain is quoted. An attribute read from a
text spells the front of that text (`Pattern.eq_append`).
-/

namespace VariantClasses

/-- What may stand between an attribute's name and its `=`. -/
inductive Form
  /-- Nothing; the value is quoted or braced. -/
  | plain
  /-- `:` and a chain of modifiers; the value is quoted. -/
  | modified
  deriving DecidableEq

/-- The attributes of one name in one form. -/
structure Pattern where
  name : Text
  form : Form
  deriving DecidableEq

/-- An attribute as it stands in a text. -/
structure Attribute where
  name : Text
  chain : Option Text
  value : Value
  deriving DecidableEq

def Attribute.written (attr : Attribute) : Text :=
  attr.name ++
    ((attr.chain.elim [] (':' :: ·)) ++ '=' :: attr.value.written)

def continuesChain (c : Char) : Bool :=
  !isBlank c && !("=\"'<>\x7b\x7d".toList.contains c)

/-- The chain and value that follow an attribute's name in a form. -/
def Form.tail? : Form → Text → Option ((Option Text × Value) × Text)
  | .plain, '=' :: rest =>
    ((quotedValue? rest).or (bracedValue? rest)).map fun (value, after) => ((none, value), after)
  | .modified, ':' :: rest =>
    match rest.dropWhile continuesChain with
    | '=' :: valued =>
      (quotedValue? valued).map fun (value, after) =>
        ((some (rest.takeWhile continuesChain), value), after)
    | _ => none
  | _, _ => none

def Pattern.attribute? (pattern : Pattern) (text : Text) : Option (Attribute × Text) :=
  (Text.after? pattern.name text).bind fun tail =>
    (pattern.form.tail? tail).map fun ((chain, value), rest) =>
      (⟨pattern.name, chain, value⟩, rest)

theorem Form.eq_append {form : Form} {text rest : Text} {chain : Option Text} {value : Value}
    (h : form.tail? text = some ((chain, value), rest)) :
    text = (chain.elim [] (':' :: ·) ++ '=' :: value.written) ++ rest := by
  unfold Form.tail? at h
  split at h
  next tail =>
    obtain ⟨⟨found, after⟩, hfound, hpair⟩ := Option.map_eq_some_iff.mp h
    simp only [Prod.mk.injEq] at hpair
    obtain ⟨⟨rfl, rfl⟩, rfl⟩ := hpair
    rcases Option.or_eq_some_iff.mp hfound with hquoted | ⟨_, hbraced⟩
    · simp [eq_append_of_quotedValue? hquoted]
    · simp [eq_append_of_bracedValue? hbraced]
  next tail =>
    split at h
    next valued hvalued =>
      obtain ⟨⟨found, after⟩, hfound, hpair⟩ := Option.map_eq_some_iff.mp h
      simp only [Prod.mk.injEq] at hpair
      obtain ⟨⟨rfl, rfl⟩, rfl⟩ := hpair
      have hsplit := List.takeWhile_append_dropWhile (p := continuesChain) (l := tail)
      rw [hvalued, eq_append_of_quotedValue? hfound] at hsplit
      simpa using hsplit.symm
    next => simp at h
  next => simp at h

theorem Pattern.eq_append {pattern : Pattern} {text rest : Text} {attr : Attribute}
    (h : pattern.attribute? text = some (attr, rest)) : text = attr.written ++ rest := by
  obtain ⟨tail, htail, h⟩ := Option.bind_eq_some_iff.mp h
  obtain ⟨⟨⟨chain, value⟩, after⟩, hfound, hpair⟩ := Option.map_eq_some_iff.mp h
  obtain ⟨rfl, rfl⟩ := Prod.mk.inj hpair
  rw [Text.eq_append_of_after? htail, Form.eq_append hfound]
  simp [Attribute.written]

theorem Attribute.written_ne_nil (attr : Attribute) : attr.written ≠ [] := by
  simp [Attribute.written]

/-- The attributes `name=value`. -/
def Pattern.plain (name : Text) : Pattern := ⟨name, .plain⟩

/-- The attributes `name:chain=value`. -/
def Pattern.modified (name : Text) : Pattern := ⟨name, .modified⟩

end VariantClasses
