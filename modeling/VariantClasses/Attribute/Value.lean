import VariantClasses.Text

/-! # Attribute values

A value stands between double quotes, single quotes or braces. Between quotes stands
any text without that quote. Between braces, braces are balanced and nest at most two
deep. Reading accepts exactly what is written.
-/

namespace VariantClasses

/-- An attribute's value, by the marks around it. -/
inductive Value
  | double (body : Text)
  | single (body : Text)
  | braced (body : Text)
  deriving DecidableEq

namespace Value

/-- The value with its marks. -/
def written : Value → Text
  | .double body => '"' :: (body ++ ['"'])
  | .single body => '\'' :: (body ++ ['\''])
  | .braced body => '\x7b' :: (body ++ ['\x7d'])

def quotedBody? : Value → Option Text
  | .double body | .single body => some body
  | .braced _ => none

end Value

/-! ## Reading -/

/-- How many braces may be open inside a braced value. -/
def nestingLimit : Nat := 2

/-- The text up to the brace that closes a value, and what follows that brace, when
`nesting` braces are open inside the value. There is none when the text ends first
or a brace nests deeper than the limit. -/
def closeBrace? (nesting : Nat) : Text → Option (Text × Text)
  | [] => none
  | c :: rest =>
    if c = '\x7d' then
      match nesting with
      | 0 => some ([], rest)
      | nesting + 1 => (closeBrace? nesting rest).map fun (body, after) => (c :: body, after)
    else if c = '\x7b' then
      if nesting < nestingLimit then
        (closeBrace? (nesting + 1) rest).map fun (body, after) => (c :: body, after)
      else none
    else (closeBrace? nesting rest).map fun (body, after) => (c :: body, after)

theorem eq_append_of_closeBrace? {nesting : Nat} {text body after : Text}
    (h : closeBrace? nesting text = some (body, after)) : text = body ++ '\x7d' :: after := by
  have step {open' : Nat} {c : Char} {rest body : Text}
      (ih : ∀ {nesting : Nat} {body : Text}, closeBrace? nesting rest = some (body, after) →
        rest = body ++ '\x7d' :: after)
      (h : (closeBrace? open' rest).map (fun (body, after) => (c :: body, after)) =
        some (body, after)) : c :: rest = body ++ '\x7d' :: after := by
    obtain ⟨⟨inner, tail⟩, hinner, hpair⟩ := Option.map_eq_some_iff.mp h
    obtain ⟨rfl, rfl⟩ := Prod.mk.inj hpair
    rw [ih hinner, List.cons_append]
  induction text generalizing nesting body with
  | nil => simp [closeBrace?] at h
  | cons c rest ih =>
    unfold closeBrace? at h
    split at h
    next hc =>
      cases nesting with
      | zero =>
        simp only [Option.some.injEq, Prod.mk.injEq] at h
        simp [hc, ← h.1, h.2]
      | succ nesting => exact step ih h
    next =>
      split at h
      next =>
        split at h
        · exact step ih h
        · simp at h
      next => exact step ih h

/-- The quoted value at the front of a text, and what follows it. -/
def quotedValue? : Text → Option (Value × Text)
  | '"' :: rest => (Text.upTo? '"' rest).map fun (body, after) => (.double body, after)
  | '\'' :: rest => (Text.upTo? '\'' rest).map fun (body, after) => (.single body, after)
  | _ => none

/-- The braced value at the front of a text, and what follows it. -/
def bracedValue? : Text → Option (Value × Text)
  | '\x7b' :: rest => (closeBrace? 0 rest).map fun (body, after) => (.braced body, after)
  | _ => none

theorem eq_append_of_quotedValue? {text rest : Text} {value : Value}
    (h : quotedValue? text = some (value, rest)) : text = value.written ++ rest := by
  unfold quotedValue? at h
  split at h
  · obtain ⟨⟨body, after⟩, hbody, hpair⟩ := Option.map_eq_some_iff.mp h
    obtain ⟨rfl, rfl⟩ := Prod.mk.inj hpair
    simp [Value.written, Text.eq_append_of_upTo? hbody]
  · obtain ⟨⟨body, after⟩, hbody, hpair⟩ := Option.map_eq_some_iff.mp h
    obtain ⟨rfl, rfl⟩ := Prod.mk.inj hpair
    simp [Value.written, Text.eq_append_of_upTo? hbody]
  · simp at h

theorem eq_append_of_bracedValue? {text rest : Text} {value : Value}
    (h : bracedValue? text = some (value, rest)) : text = value.written ++ rest := by
  unfold bracedValue? at h
  split at h
  · obtain ⟨⟨body, after⟩, hbody, hpair⟩ := Option.map_eq_some_iff.mp h
    obtain ⟨rfl, rfl⟩ := Prod.mk.inj hpair
    simp [Value.written, eq_append_of_closeBrace? hbody]
  · simp at h

end VariantClasses
