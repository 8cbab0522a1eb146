/-! # Texts

A text is a list of characters, so that reading one is recursion on a list and
two texts are compared character by character, in code point order.
-/

namespace VariantClasses

/-- A text, from its first character to its last. -/
abbrev Text := List Char

namespace Text

/-- Whether `part` occurs somewhere in the text. -/
def includes (part : Text) : Text → Bool
  | [] => part.isEmpty
  | c :: rest => part.isPrefixOf (c :: rest) || includes part rest

/-- The texts in order, with `separator` between neighbours. -/
def joinWith (separator : Text) (texts : List Text) : Text :=
  List.intercalate separator texts

/-- The text up to the first `stop`, and what follows that `stop`; nothing when
there is no `stop`. -/
def upTo? (stop : Char) : Text → Option (Text × Text)
  | [] => none
  | c :: rest =>
    if c = stop then some ([], rest)
    else (upTo? stop rest).map fun (before, after) => (c :: before, after)

/-- The text before the last `stop`, and what follows that `stop`; nothing when
there is no `stop`. -/
def upToLast? (stop : Char) : Text → Option (Text × Text)
  | [] => none
  | c :: rest =>
    match upToLast? stop rest with
    | some (before, after) => some (c :: before, after)
    | none => if c = stop then some ([], rest) else none

/-- What is left of the text when `front` is taken off its front. -/
def after? : (front : Text) → Text → Option Text
  | [], text => some text
  | _ :: _, [] => none
  | f :: front, c :: rest => if c = f then after? front rest else none

/-- The number of bytes of the text in UTF-8. -/
def byteLength (text : Text) : Nat :=
  text.foldr (fun c size => c.utf8Size + size) 0

theorem eq_append_of_upTo? {stop : Char} {text before after : Text}
    (h : upTo? stop text = some (before, after)) : text = before ++ stop :: after := by
  induction text generalizing before with
  | nil => simp [upTo?] at h
  | cons c rest ih =>
    unfold upTo? at h
    split at h
    next hc => simp_all
    next =>
      obtain ⟨⟨inner, tail⟩, hinner, hpair⟩ := Option.map_eq_some_iff.mp h
      obtain ⟨rfl, rfl⟩ := Prod.mk.inj hpair
      simp [ih hinner]

theorem eq_append_of_upToLast? {stop : Char} {text before after : Text}
    (h : upToLast? stop text = some (before, after)) : text = before ++ stop :: after := by
  induction text generalizing before with
  | nil => simp [upToLast?] at h
  | cons c rest ih =>
    unfold upToLast? at h
    split at h
    next inner tail hinner =>
      obtain ⟨rfl, rfl⟩ := Prod.mk.inj (Option.some.inj h)
      rw [ih hinner, List.cons_append]
    next => simp_all

theorem eq_append_of_after? {front text rest : Text}
    (h : after? front text = some rest) : text = front ++ rest := by
  induction front generalizing text with
  | nil => simpa [after?] using h
  | cons f front ih =>
    cases text with
    | nil => simp [after?] at h
    | cons c tail =>
      unfold after? at h
      split at h
      next hc => rw [hc, ih h, List.cons_append]
      next => simp at h

end Text

end VariantClasses
