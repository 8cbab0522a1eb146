import VariantClasses.Proofs.Attribute.Values
import VariantClasses.Proofs.Expression
import VariantClasses.Text.Encoding

/-! # Where a call is cut

A call takes a new last argument before the last parenthesis that closes in it, in place of
the blanks there. The two cuts that this makes fall between characters and behind the first
parenthesis that opens, and all else of the call is kept (`call_takes_argument_at_cut`).
-/

namespace VariantClasses

open Text

namespace Text

/-! ## Offsets in bytes -/

/-- The offset in bytes of the first `c` in a text. -/
def firstOffset? (c : Char) (text : Text) : Option Nat :=
  (text.upTo? c).map fun (before, _) => before.byteLength

/-- The offset in bytes of the last `c` in a text. -/
def lastOffset? (c : Char) (text : Text) : Option Nat :=
  (text.upToLast? c).map fun (before, _) => before.byteLength

/-- An offset in bytes at which a character of the text starts or the text ends. -/
def IsCharBoundary (text : Text) (offset : Nat) : Prop :=
  String.Pos.Raw.IsValid (String.ofList text) ⟨offset⟩

theorem encode_append (front back : Text) :
    (front ++ back).encode = front.encode ++ back.encode := by
  rw [encode, encode, encode, String.ofList_append]
  exact String.toByteArray_append

theorem size_encode (text : Text) : text.encode.size = text.byteLength := by
  induction text with
  | nil => rfl
  | cons c rest ih =>
    have hc : (encode [c]).size = c.utf8Size := by simp [encode, List.utf8Encode_singleton]
    calc (encode (c :: rest)).size = (encode [c]).size + (encode rest).size := by
          rw [← ByteArray.size_append, ← encode_append, List.singleton_append]
      _ = byteLength (c :: rest) := by rw [hc, ih, byteLength, byteLength, List.foldr_cons]

theorem byteLength_append (front back : Text) :
    (front ++ back).byteLength = front.byteLength + back.byteLength := by
  rw [← size_encode, encode_append, ByteArray.size_append, size_encode, size_encode]

theorem byteLength_append_cons_lt (front : Text) (c : Char) (back : Text) :
    front.byteLength < (front ++ c :: back).byteLength := by
  have hc := c.utf8Size_pos
  rw [byteLength_append]
  simp only [byteLength, List.foldr_cons]
  omega

/-- What stands before some part of a text ends between characters. -/
theorem isCharBoundary_append (front back : Text) :
    IsCharBoundary (front ++ back) front.byteLength := by
  refine String.Pos.Raw.isValid_iff_exists_append.mpr
    ⟨String.ofList front, String.ofList back, String.ofList_append, ?_⟩
  rw [← size_encode]
  rfl

theorem firstOffset?_append_cons {c : Char} {before : Text} (h : c ∉ before) (after : Text) :
    firstOffset? c (before ++ c :: after) = some before.byteLength := by
  rw [firstOffset?, upTo?_append_cons h, Option.map_some]

theorem lastOffset?_append_cons {c : Char} {after : Text} (h : c ∉ after) (before : Text) :
    lastOffset? c (before ++ c :: after) = some before.byteLength := by
  rw [lastOffset?, upToLast?_append_cons h, Option.map_some]

theorem lastOffset?_eq_none_iff {c : Char} {text : Text} :
    lastOffset? c text = none ↔ c ∉ text := by
  rw [lastOffset?, Option.map_eq_none_iff, upToLast?_eq_none_iff]

/-- A character stands in the front of a text exactly when its first offset is below the
length of the front. -/
theorem mem_iff_firstOffset?_lt {c : Char} {front : Text} (rest : Text) :
    c ∈ front ↔
      ∃ offset, firstOffset? c (front ++ rest) = some offset ∧ offset < front.byteLength := by
  constructor
  · intro hmem
    obtain ⟨before, after, rfl, hbefore⟩ := List.eq_append_cons_of_mem hmem
    refine ⟨byteLength before, ?_, byteLength_append_cons_lt before c after⟩
    rw [List.append_assoc, List.cons_append, firstOffset?_append_cons hbefore]
  · rintro ⟨offset, hoffset, hlt⟩
    obtain ⟨⟨before, after⟩, hsplit, rfl⟩ := Option.map_eq_some_iff.mp hoffset
    -- The front reaches past what stands before the first `c`, so it holds that one.
    rcases List.append_eq_append_iff.mp (eq_append_of_upTo? hsplit) with
      ⟨inner, rfl, -⟩ | ⟨inner, rfl, hinner⟩
    · dsimp only at hlt
      rw [byteLength_append] at hlt
      omega
    · cases inner with
      | nil => simp at hlt
      | cons d inner =>
        obtain ⟨rfl, -⟩ := List.cons.inj hinner
        exact List.mem_append_right _ List.mem_cons_self

/-! ## Blanks at the end -/

theorem trimEnd_append_blanks {front blanks : Text} (hblanks : ∀ c ∈ blanks, isBlank c = true)
    (hlast : ∀ c ∈ front.getLast?, isBlank c = false) : trimEnd (front ++ blanks) = front := by
  rw [trimEnd, List.reverse_append,
    List.dropWhile_append_of_pos fun c hc => hblanks c (List.mem_reverse.mp hc)]
  exact trimEnd_eq_self hlast

theorem not_blank_of_mem_getLast?_trimEnd {text : Text} {c : Char}
    (h : c ∈ (trimEnd text).getLast?) : isBlank c = false := by
  rw [trimEnd, List.getLast?_reverse] at h
  have hhead := List.head?_dropWhile_not isBlank text.reverse
  rw [Option.mem_def.mp h] at hhead
  exact hhead

end Text

/-! ## Order of the parentheses -/

/-- A text takes an argument exactly when its first opening parenthesis stands before its last
closing one. -/
theorem exists_injectArgument?_iff_offsets (text literal : Text) :
    (∃ injected, injectArgument? text literal = some injected) ↔
      ∃ opening closing, firstOffset? '(' text = some opening ∧
        lastOffset? ')' text = some closing ∧ opening < closing := by
  by_cases hclose : ')' ∈ text
  · obtain ⟨before, after, rfl, hafter⟩ := exists_eq_append_of_mem hclose
    have hopen : '(' ∈ before ↔ ∃ opening, firstOffset? '(' (before ++ ')' :: after) =
        some opening ∧ opening < byteLength before := mem_iff_firstOffset?_lt _
    simp [injectArgument?, upToLast?_append_cons hafter, lastOffset?_append_cons hafter, hopen]
  · simp [injectArgument?, upToLast?_eq_none_iff.mpr hclose, lastOffset?_eq_none_iff.mpr hclose]

/-- In a call the first parenthesis that opens stands before the last one that closes. -/
theorem exists_firstOffset?_of_isCall {call : Text} (hcall : isCall call = true) :
    ∃ opening, firstOffset? '(' call = some opening ∧
      ∀ closing, lastOffset? ')' call = some closing → opening < closing := by
  obtain ⟨callee, rest, hsplit, hopen, -⟩ := exists_eq_of_isCall hcall
  have hopening : firstOffset? '(' call = some (byteLength callee) := by
    rw [hsplit, firstOffset?_append_cons hopen]
  refine ⟨byteLength callee, hopening, fun closing hclosing => ?_⟩
  obtain ⟨⟨before, after⟩, hlast, rfl⟩ := Option.map_eq_some_iff.mp hclosing
  have hcalled := eq_append_of_upToLast? hlast
  have hmem : '(' ∈ before := open_mem_of_isCall (hcalled ▸ hcall)
  obtain ⟨offset, hoffset, hlt⟩ := (mem_iff_firstOffset?_lt (')' :: after)).mp hmem
  rw [← hcalled, hopening] at hoffset
  obtain rfl := Option.some.inj hoffset
  exact hlt

/-! ## Cuts -/

/-- A call cut where it takes a new last argument. The last parenthesis that closes starts
`back`, and the blanks before it are those of `gap`. -/
structure ArgumentCut (call front gap back : Text) : Prop where
  split : call = front ++ (gap ++ back)
  front_last : ∀ c ∈ front.getLast?, isBlank c = false
  gap_blank : ∀ c ∈ gap, isBlank c = true
  back_closes : ∃ after, back = ')' :: after ∧ ')' ∉ after

/-- What stands between the end of `front` and a new argument. -/
inductive Separator (front : Text) : Text → Prop
  | opened (hlast : front.getLast? = some '(') : Separator front []
  | comma (hlast : front.getLast? = some ',') : Separator front [' ']
  | argument (hopened : front.getLast? ≠ some '(') (hcomma : front.getLast? ≠ some ',') :
      Separator front [',', ' ']

theorem separator_argumentSeparator (front : Text) :
    Separator front (argumentSeparator front) := by
  unfold argumentSeparator
  split
  next hlast => exact .opened hlast
  next hlast => exact .comma hlast
  next hopened hcomma => exact .argument hopened hcomma

theorem exists_argumentCut {call : Text} (h : ')' ∈ call) :
    ∃ front gap back, ArgumentCut call front gap back := by
  obtain ⟨before, after, rfl, hafter⟩ := exists_eq_append_of_mem h
  obtain ⟨gap, hbefore, hgap⟩ := exists_eq_trimEnd_append before
  refine ⟨trimEnd before, gap, ')' :: after, ?_, fun c hc => not_blank_of_mem_getLast?_trimEnd hc,
    hgap, after, rfl, hafter⟩
  rw [← List.append_assoc, ← hbefore]

namespace ArgumentCut

variable {call front gap back : Text}

theorem lastOffset?_eq (hcut : ArgumentCut call front gap back) :
    lastOffset? ')' call = some (byteLength (front ++ gap)) := by
  obtain ⟨after, rfl, hafter⟩ := hcut.back_closes
  rw [hcut.split, ← List.append_assoc, lastOffset?_append_cons hafter]

theorem injectArgument?_eq (hcut : ArgumentCut call front gap back) (hcall : isCall call = true)
    (literal : Text) :
    injectArgument? call literal =
      some (front ++ argumentSeparator front ++ templateLiteral literal ++ back) := by
  obtain ⟨after, rfl, hafter⟩ := hcut.back_closes
  have hsplit : call = (front ++ gap) ++ ')' :: after := by
    rw [hcut.split, List.append_assoc]
  subst hsplit
  rw [injectArgument?_append_cons hcall hafter,
    trimEnd_append_blanks hcut.gap_blank hcut.front_last]

/-- The first parenthesis that opens in a call stands before the blanks, too. -/
theorem open_mem_front (hcut : ArgumentCut call front gap back) (hcall : isCall call = true) :
    '(' ∈ front := by
  obtain ⟨after, rfl, -⟩ := hcut.back_closes
  rw [hcut.split, ← List.append_assoc] at hcall
  rcases List.mem_append.mp (open_mem_of_isCall hcall) with hfront | hgap
  · exact hfront
  · exact absurd (hcut.gap_blank '(' hgap) (by decide)

theorem isCharBoundary (hcut : ArgumentCut call front gap back) :
    IsCharBoundary call (byteLength front) ∧ IsCharBoundary call (byteLength (front ++ gap)) := by
  constructor
  · rw [hcut.split]
    exact isCharBoundary_append front (gap ++ back)
  · rw [hcut.split, ← List.append_assoc]
    exact isCharBoundary_append (front ++ gap) back

end ArgumentCut

/-- A call takes an argument unless no parenthesis closes in it. The argument comes in place
of the blanks before the last parenthesis that closes, with what separates it from the text
there, and the rest of the call stays. -/
theorem call_takes_argument_at_cut {call : Text} (hcall : isCall call = true) (literal : Text) :
    (injectArgument? call literal = none ↔ ')' ∉ call) ∧
      (∃ opening, firstOffset? '(' call = some opening ∧
        ∀ closing, lastOffset? ')' call = some closing → opening < closing) ∧
      (')' ∈ call → ∃ front gap back, ArgumentCut call front gap back) ∧
      ∀ front gap back, ArgumentCut call front gap back →
        (∃ separator, Separator front separator ∧ injectArgument? call literal =
          some (front ++ separator ++ templateLiteral literal ++ back)) ∧
        (∃ callee arguments, front = callee ++ '(' :: arguments ∧ '(' ∉ callee) ∧
        lastOffset? ')' call = some (byteLength (front ++ gap)) ∧
        IsCharBoundary call (byteLength front) ∧
        IsCharBoundary call (byteLength (front ++ gap)) := by
  refine ⟨injectArgument?_eq_none_iff hcall literal, exists_firstOffset?_of_isCall hcall,
    exists_argumentCut, fun front gap back hcut => ⟨?_, ?_, ?_, hcut.isCharBoundary⟩⟩
  · exact ⟨argumentSeparator front, separator_argumentSeparator front,
      hcut.injectArgument?_eq hcall literal⟩
  · exact List.eq_append_cons_of_mem (hcut.open_mem_front hcall)
  · exact hcut.lastOffset?_eq

/-- Characters of more than one byte stand before both cuts, and one is the blank between
them. -/
theorem call_takes_argument_at_cut_of_wide_blank :
    let call := "naïve.t ( f(x),\u2003) ü".toList
    isCall call = true ∧
      ArgumentCut call "naïve.t ( f(x),".toList ['\u2003'] ") ü".toList ∧
      injectArgument? call ['p'] = some "naïve.t ( f(x), `p`) ü".toList ∧
      (∃ opening, firstOffset? '(' call = some opening ∧ opening < 19) ∧
      lastOffset? ')' call = some 19 ∧ IsCharBoundary call 16 ∧ IsCharBoundary call 19 := by
  intro call
  have hcall : isCall call = true := by decide +kernel
  have hcomma : "naïve.t ( f(x),".toList.getLast? = some ',' := by decide
  have hcut : ArgumentCut call "naïve.t ( f(x),".toList ['\u2003'] ") ü".toList := by
    refine ⟨by decide, fun c hc => ?_, fun c hc => ?_, " ü".toList, by decide, by decide⟩
    · obtain rfl := Option.some.inj (hcomma.symm.trans hc)
      decide
    · obtain rfl := List.mem_singleton.mp hc
      decide
  obtain ⟨-, ⟨opening, hopening, hbefore⟩, -, hcuts⟩ := call_takes_argument_at_cut hcall ['p']
  obtain ⟨⟨separator, hseparator, hinjected⟩, -, hlast, hfront, hgap⟩ := hcuts _ _ _ hcut
  have hspace : separator = [' '] := by
    cases hseparator with
    | opened hopened => cases hcomma.symm.trans hopened
    | comma => rfl
    | argument _ hother => exact absurd hcomma hother
  subst hspace
  exact ⟨hcall, hcut, hinjected, ⟨opening, hopening, hbefore 19 hlast⟩, hlast, hfront, hgap⟩

end VariantClasses
