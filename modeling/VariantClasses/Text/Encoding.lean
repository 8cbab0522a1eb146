import VariantClasses.Text

/-! # Texts as bytes

Texts are stored in UTF-8; bytes that are no UTF-8 are no text.
-/

namespace VariantClasses

/-- The bytes of a text in UTF-8. -/
def Text.encode (text : Text) : ByteArray :=
  (String.ofList text).toUTF8

/-- The text that bytes are in UTF-8, if they are one. -/
def Text.decode? (bytes : ByteArray) : Option Text :=
  (String.fromUTF8? bytes).map String.toList

theorem Text.decode?_encode (text : Text) : Text.decode? (Text.encode text) = some text := by
  have hvalid : (Text.encode text).IsValidUTF8 := (String.ofList text).isValidUTF8
  rw [Text.decode?, String.fromUTF8?, dif_pos hvalid, Option.map_some]
  exact congrArg some String.toList_ofList

theorem Text.encode_inj {text other : Text} : text.encode = other.encode ↔ text = other := by
  constructor
  · intro h
    have hdecoded := congrArg Text.decode? h
    rw [Text.decode?_encode, Text.decode?_encode] at hdecoded
    exact Option.some.inj hdecoded
  · intro h
    rw [h]

theorem Text.encode_of_decode?_eq_some {bytes : ByteArray} {text : Text}
    (h : Text.decode? bytes = some text) : text.encode = bytes := by
  obtain ⟨string, hstring, rfl⟩ := Option.map_eq_some_iff.mp h
  rw [String.fromUTF8?] at hstring
  split at hstring
  next hvalid =>
    obtain rfl := Option.some.inj hstring
    rw [Text.encode, String.ofList_toList]
    rfl
  next => cases hstring

end VariantClasses
