import VariantClasses.Attribute.Name
import VariantClasses.Attribute.Occurrence
import VariantClasses.Proofs.Attribute.Values
import VariantClasses.Proofs.Scan
import VariantClasses.Proofs.Text.Infix

/-! # Attributes that read back

Reading an attribute accepts exactly the attributes that a pattern admits, as they are
written (`Pattern.attribute?_eq_some_iff`). Behind a boundary that is one blank, or
nothing at the start of a text.
-/

namespace VariantClasses

/-! ## Names -/

theorem toNat_of_continuesName {c : Char} (h : continuesName c = true) :
    (48 ≤ c.toNat ∧ c.toNat ≤ 57) ∨ (65 ≤ c.toNat ∧ c.toNat ≤ 90) ∨
      (97 ≤ c.toNat ∧ c.toNat ≤ 122) ∨ c.toNat = 95 ∨ c.toNat = 45 := by
  delta continuesName Char.isAlphanum Char.isAlpha Char.isUpper Char.isLower Char.isDigit at h
  simp only [Bool.or_eq_true, Bool.and_eq_true, decide_eq_true_eq, beq_iff_eq,
    UInt32.le_iff_toNat_le, ge_iff_le] at h
  rcases h with (((h | h) | h) | rfl) | rfl
  · exact .inr (.inl h)
  · exact .inr (.inr (.inl h))
  · exact .inl h
  · exact .inr (.inr (.inr (.inl rfl)))
  · exact .inr (.inr (.inr (.inr rfl)))

theorem not_blank_of_continuesName {c : Char} (h : continuesName c = true) :
    isBlank c = false := by
  have hrange := toNat_of_continuesName h
  simp only [isBlank, Bool.or_eq_false_iff, Bool.and_eq_false_iff, decide_eq_false_iff_not,
    beq_eq_false_iff_ne]
  omega

theorem exists_eq_cons_of_isAttributeName {name : Text} (h : isAttributeName name = true) :
    ∃ c rest, name = c :: rest ∧ ∀ d ∈ name, continuesName d = true := by
  cases name with
  | nil => simp [isAttributeName] at h
  | cons c rest =>
    rw [isAttributeName, Bool.and_eq_true] at h
    refine ⟨c, rest, rfl, fun d hd => ?_⟩
    rcases List.mem_cons.mp hd with rfl | hrest
    · have hstart := h.1
      simp only [startsName, Bool.or_eq_true] at hstart
      simp only [continuesName, Char.isAlphanum, Bool.or_eq_true]
      exact .inl (hstart.imp_left .inl)
    · exact List.all_eq_true.mp h.2 d hrest

theorem not_mem_of_isAttributeName {name : Text} (h : isAttributeName name = true) {c : Char}
    (hc : continuesName c = false) : c ∉ name := by
  obtain ⟨_, _, -, hname⟩ := exists_eq_cons_of_isAttributeName h
  intro hmem
  rw [hname c hmem] at hc
  cases hc

/-! ## Reading -/

namespace Text

theorem after?_eq_some_iff {front text rest : Text} :
    after? front text = some rest ↔ text = front ++ rest := by
  constructor
  · exact eq_append_of_after?
  · rintro rfl
    induction front with
    | nil => rfl
    | cons f front ih => rw [List.cons_append, after?, if_pos rfl, ih]

end Text

theorem continuesChain_iff {c : Char} :
    continuesChain c = true ↔ isBlank c = false ∧ c ∉ "=\"'<>\x7b\x7d".toList := by
  rw [continuesChain, Bool.and_eq_true, Bool.not_eq_true', Bool.not_eq_true',
    ← Bool.not_eq_true (List.contains _ _), List.contains_iff_mem]

/-- The chains and values of a form's attributes. -/
def Form.Admits : Form → Option Text → Value → Prop
  | .plain, chain, value => chain = none ∧ value.IsClosed
  | .modified, chain, value =>
    (∃ modifiers, chain = some modifiers ∧ ∀ c ∈ modifiers, continuesChain c = true) ∧
      value.IsClosed ∧ value.quotedBody?.isSome

/-- The attributes of a pattern. -/
def Pattern.Admits (pattern : Pattern) (attr : Attribute) : Prop :=
  attr.name = pattern.name ∧ pattern.form.Admits attr.chain attr.value

theorem Form.tail?_plain_eq_some_iff {text rest : Text} {chain : Option Text} {value : Value} :
    Form.plain.tail? text = some ((chain, value), rest) ↔
      Form.plain.Admits chain value ∧ text = '=' :: (value.written ++ rest) := by
  constructor
  · intro h
    have htext := Form.eq_append h
    unfold tail? at h
    split at h
    next tail =>
      obtain ⟨⟨found, after⟩, hfound, hpair⟩ := Option.map_eq_some_iff.mp h
      simp only [Prod.mk.injEq] at hpair
      obtain ⟨⟨rfl, rfl⟩, rfl⟩ := hpair
      refine ⟨⟨rfl, ?_⟩, by simpa using htext⟩
      rcases Option.or_eq_some_iff.mp hfound with hquoted | ⟨_, hbraced⟩
      · exact (quotedValue?_eq_some_iff.mp hquoted).1.1
      · exact (bracedValue?_eq_some_iff.mp hbraced).1.1
    next hform => cases hform
    next => cases h
  · intro h
    obtain ⟨⟨rfl, hclosed⟩, rfl⟩ := h
    -- Quotes are tried first; no braced value starts with one.
    have hread : (quotedValue? (value.written ++ rest)).or (bracedValue? (value.written ++ rest)) =
        some (value, rest) := by
      cases hbody : value.quotedBody? with
      | some body =>
        rw [quotedValue?_eq_some_iff.mpr ⟨⟨hclosed, by simp [hbody]⟩, rfl⟩, Option.some_or]
      | none =>
        have hquoted : quotedValue? (value.written ++ rest) = none := by
          cases value with
          | double body => cases hbody
          | single body => cases hbody
          | braced body => rfl
        rw [hquoted, Option.none_or, bracedValue?_eq_some_iff.mpr ⟨⟨hclosed, hbody⟩, rfl⟩]
    simp [tail?, hread]

theorem Form.tail?_modified_eq_some_iff {text rest : Text} {chain : Option Text}
    {value : Value} : Form.modified.tail? text = some ((chain, value), rest) ↔
      Form.modified.Admits chain value ∧
        text = (chain.elim [] (':' :: ·) ++ '=' :: value.written) ++ rest := by
  constructor
  · intro h
    refine ⟨?_, Form.eq_append h⟩
    unfold tail? at h
    split at h
    next hform => cases hform
    next tail =>
      split at h
      next valued hvalued =>
        obtain ⟨⟨found, after⟩, hfound, hpair⟩ := Option.map_eq_some_iff.mp h
        simp only [Prod.mk.injEq] at hpair
        obtain ⟨⟨rfl, rfl⟩, rfl⟩ := hpair
        exact ⟨⟨_, rfl, fun c hc => List.all_eq_true.mp List.all_takeWhile c hc⟩,
          (quotedValue?_eq_some_iff.mp hfound).1⟩
      next => cases h
    next => cases h
  · intro h
    obtain ⟨⟨⟨modifiers, rfl, hchain⟩, hvalue⟩, rfl⟩ := h
    have hstop : ¬continuesChain '=' = true := by decide
    have hdrop : (modifiers ++ '=' :: (value.written ++ rest)).dropWhile continuesChain =
        '=' :: (value.written ++ rest) := by
      rw [List.dropWhile_append_of_pos hchain, List.dropWhile_cons_of_neg hstop]
    have htake : (modifiers ++ '=' :: (value.written ++ rest)).takeWhile continuesChain =
        modifiers := by
      rw [List.takeWhile_append_of_pos hchain, List.takeWhile_cons_of_neg hstop, List.append_nil]
    simp [tail?, hdrop, htake, quotedValue?_eq_some_iff.mpr ⟨hvalue, rfl⟩]

/-- Reading accepts exactly the attributes of a pattern, as they are written. -/
theorem Pattern.attribute?_eq_some_iff {pattern : Pattern} {text rest : Text}
    {attr : Attribute} : pattern.attribute? text = some (attr, rest) ↔
      pattern.Admits attr ∧ text = attr.written ++ rest := by
  have hform {chain : Option Text} {value : Value} {tail : Text} :
      pattern.form.tail? tail = some ((chain, value), rest) ↔
        pattern.form.Admits chain value ∧
          tail = (chain.elim [] (':' :: ·) ++ '=' :: value.written) ++ rest := by
    cases pattern.form with
    | plain =>
      rw [Form.tail?_plain_eq_some_iff]
      apply and_congr_right
      intro h
      rw [h.1]
      simp
    | modified => exact Form.tail?_modified_eq_some_iff
  constructor
  · intro h
    refine ⟨?_, Pattern.eq_append h⟩
    obtain ⟨tail, -, h⟩ := Option.bind_eq_some_iff.mp h
    obtain ⟨⟨⟨chain, value⟩, after⟩, hfound, hpair⟩ := Option.map_eq_some_iff.mp h
    obtain ⟨rfl, rfl⟩ := Prod.mk.inj hpair
    exact ⟨rfl, (hform.mp hfound).1⟩
  · intro h
    obtain ⟨⟨hname, hadmits⟩, rfl⟩ := h
    obtain ⟨name, chain, value⟩ := attr
    dsimp only at hname hadmits
    subst hname
    have hafter : Text.after? pattern.name
        (Attribute.written ⟨pattern.name, chain, value⟩ ++ rest) =
          some ((chain.elim [] (':' :: ·) ++ '=' :: value.written) ++ rest) :=
      Text.after?_eq_some_iff.mpr (by simp [Attribute.written])
    rw [attribute?, hafter, Option.bind_some, hform.mpr ⟨hadmits, rfl⟩, Option.map_some]

/-! ## Boundaries -/

/-- What may stand before an attribute: nothing at the start of a text, or one blank. -/
def IsBoundary (atStart : Bool) (lead : Text) : Prop :=
  (atStart = true ∧ lead = []) ∨ ∃ c, isBlank c = true ∧ lead = [c]

theorem IsBoundary.blanks {atStart : Bool} {lead : Text} (h : IsBoundary atStart lead) :
    ∀ c ∈ lead, isBlank c = true := by
  rcases h with ⟨-, rfl⟩ | ⟨d, hd, rfl⟩
  · simp
  · intro c hc
    rwa [List.mem_singleton.mp hc]

theorem afterBoundary?_eq_some_iff {α : Type} {body? : Text → Option (α × Text)}
    (hbody : ∀ {c after}, isBlank c = true → body? (c :: after) = none) {atStart : Bool}
    {text rest lead : Text} {x : α} :
    afterBoundary? body? atStart text = some ((lead, x), rest) ↔
      IsBoundary atStart lead ∧ ∃ tail, text = lead ++ tail ∧ body? tail = some (x, rest) := by
  unfold afterBoundary?
  constructor
  · intro h
    rcases Option.or_eq_some_iff.mp h with h | ⟨-, h⟩
    · split at h
      next hstart =>
        obtain ⟨⟨y, after⟩, hy, hpair⟩ := Option.map_eq_some_iff.mp h
        simp only [Prod.mk.injEq] at hpair
        obtain ⟨⟨rfl, rfl⟩, rfl⟩ := hpair
        exact ⟨.inl ⟨hstart, rfl⟩, text, rfl, hy⟩
      next => cases h
    · cases text with
      | nil => cases h
      | cons c after =>
        dsimp only at h
        split at h
        next hc =>
          obtain ⟨⟨y, tail⟩, hy, hpair⟩ := Option.map_eq_some_iff.mp h
          simp only [Prod.mk.injEq] at hpair
          obtain ⟨⟨rfl, rfl⟩, rfl⟩ := hpair
          exact ⟨.inr ⟨c, hc, rfl⟩, after, rfl, hy⟩
        next => cases h
  · intro h
    rcases h with ⟨⟨rfl, rfl⟩ | ⟨c, hc, rfl⟩, tail, rfl, hread⟩
    · simp [hread]
    · simp [hbody hc, hc, hread]

/-- Whatever a reader recognises, `key` stands there behind a boundary. -/
def Reader.NeedsKey {α : Type} (reader : Reader α) (key : Text) : Prop :=
  ∀ ⦃atStart text x rest⦄, reader.read? atStart text = some (x, rest) →
    ∃ lead, IsBoundary atStart lead ∧ lead ++ key <+: text

section NeedsKey

variable {α : Type} {reader : Reader α} {key : Text}

/-- Inside a text, attributes are recognised at blanks only. -/
theorem Reader.NeedsKey.passesOver_of_not_blank (h : reader.NeedsKey key) {front : Text}
    (hfront : ∀ c ∈ front, isBlank c = false) (rest : Text) :
    reader.PassesOver false front rest := by
  intro before c after htext
  apply Option.eq_none_iff_forall_ne_some.mpr
  intro ⟨x, tail⟩ hread
  obtain ⟨lead, hlead, hstart⟩ := h hread
  rcases hlead with ⟨htrue, -⟩ | ⟨d, hd, rfl⟩
  · simp at htrue
  · obtain ⟨hdc, -⟩ := List.cons_prefix_cons.mp hstart
    have hc := hfront c (htext ▸ List.mem_append_right _ List.mem_cons_self)
    rw [hdc, hc] at hd
    cases hd

/-- A text without the key is passed over, unless the key starts in it and goes on behind
it. -/
theorem Reader.NeedsKey.passesOver (h : reader.NeedsKey key) {front rest : Text}
    (hfront : ¬key <:+: front) (hrest : ∀ c ∈ rest.head?, c ∉ key) (atStart : Bool) :
    reader.PassesOver atStart front rest := by
  -- The key lies wholly in `front` when it starts there.
  have hinside {text : Text} (hstart : key <+: text ++ rest) : key <+: text := by
    cases rest with
    | nil => simpa using hstart
    | cons c rest => exact Text.prefix_of_prefix_append_cons (hrest c rfl) hstart
  rintro before c after rfl
  apply Option.eq_none_iff_forall_ne_some.mpr
  intro ⟨x, tail⟩ hread
  apply hfront
  obtain ⟨lead, hlead, hstart⟩ := h hread
  rcases hlead with ⟨-, rfl⟩ | ⟨d, -, rfl⟩
  · rw [List.nil_append, ← List.cons_append] at hstart
    exact List.infix_append_of_infix_right (hinside hstart).isInfix
  · obtain ⟨-, hafter⟩ := List.cons_prefix_cons.mp hstart
    exact List.infix_append_of_infix_right (List.infix_cons (hinside hafter).isInfix)

end NeedsKey

theorem Reader.NeedsKey.of_front {α : Type} {reader : Reader α} {key front : Text}
    (h : reader.NeedsKey key) (hfront : front <+: key) : reader.NeedsKey front := by
  intro atStart text x rest hread
  obtain ⟨lead, hlead, hstart⟩ := h hread
  exact ⟨lead, hlead, ((List.prefix_append_right_inj lead).mpr hfront).trans hstart⟩

/-! ## Occurrences -/

namespace Pattern

variable {pattern : Pattern}

theorem attribute?_cons_of_blank (hname : isAttributeName pattern.name = true) {c : Char}
    {after : Text} (hc : isBlank c = true) : pattern.attribute? (c :: after) = none := by
  apply Option.eq_none_iff_forall_ne_some.mpr
  intro ⟨attr, rest⟩ hread
  obtain ⟨⟨hattr, -⟩, htext⟩ := attribute?_eq_some_iff.mp hread
  obtain ⟨d, tail, hcons, hplain⟩ := exists_eq_cons_of_isAttributeName hname
  rw [Attribute.written, hattr, hcons] at htext
  have hcd : c = d := (List.cons.inj htext).1
  have hd := not_blank_of_continuesName (hplain d (hcons ▸ List.mem_cons_self))
  rw [← hcd, hc] at hd
  cases hd

/-- A scan recognises exactly the attributes of its pattern, behind a boundary. -/
theorem reader_read?_eq_some_iff (hname : isAttributeName pattern.name = true) {atStart : Bool}
    {text rest : Text} {found : Occurrence} :
    pattern.reader.read? atStart text = some (found, rest) ↔
      IsBoundary atStart found.lead ∧ pattern.Admits found.attr ∧
        text = found.written ++ rest := by
  have hblank {c : Char} {after : Text} (hc : isBlank c = true) :
      pattern.attribute? (c :: after) = none :=
    attribute?_cons_of_blank hname hc
  constructor
  · intro h
    obtain ⟨⟨⟨lead, attr⟩, tail⟩, hfound, hpair⟩ := Option.map_eq_some_iff.mp h
    obtain ⟨rfl, rfl⟩ := Prod.mk.inj hpair
    obtain ⟨hlead, middle, rfl, hread⟩ := (afterBoundary?_eq_some_iff hblank).mp hfound
    obtain ⟨hadmits, rfl⟩ := attribute?_eq_some_iff.mp hread
    exact ⟨hlead, hadmits, by simp [Occurrence.written]⟩
  · intro h
    obtain ⟨hlead, hadmits, rfl⟩ := h
    have hread := attribute?_eq_some_iff.mpr ⟨hadmits, (rfl : found.attr.written ++ rest = _)⟩
    have hfound := (afterBoundary?_eq_some_iff hblank).mpr
      ⟨hlead, _, (rfl : found.lead ++ (found.attr.written ++ rest) = _), hread⟩
    rw [← List.append_assoc] at hfound
    change (afterBoundary? pattern.attribute? atStart (found.written ++ rest)).map _ = _
    rw [Occurrence.written, hfound]
    rfl

theorem admits_of_mem_occurrences (hname : isAttributeName pattern.name = true) {text : Text}
    {found : Occurrence} (h : found ∈ pattern.occurrences text) : pattern.Admits found.attr := by
  obtain ⟨start, front, rest, hread⟩ := pattern.reader.exists_read_of_mem_findAll h
  exact ((reader_read?_eq_some_iff hname).mp hread).2.1

theorem boundary_of_mem_occurrences (hname : isAttributeName pattern.name = true) {text : Text}
    {found : Occurrence} (h : found ∈ pattern.occurrences text) :
    ∃ start, IsBoundary start found.lead := by
  obtain ⟨start, front, rest, hread⟩ := pattern.reader.exists_read_of_mem_findAll h
  exact ⟨start, ((reader_read?_eq_some_iff hname).mp hread).1⟩

/-- An attribute alone is what is found in it. -/
theorem occurrences_written (hname : isAttributeName pattern.name = true) {attr : Attribute}
    (h : pattern.Admits attr) : pattern.occurrences attr.written = [⟨[], attr⟩] := by
  have hread : pattern.reader.read? true attr.written = some (⟨[], attr⟩, []) :=
    (reader_read?_eq_some_iff hname).mpr ⟨.inl ⟨rfl, rfl⟩, h, by simp [Occurrence.written]⟩
  rw [occurrences, Reader.findAll, Reader.cut_of_some _ hread, Reader.cut_nil]
  rfl

/-- What is found and starts with its name has no blank before it, and a value behind it. -/
theorem value_written_of_mem_occurrences {name text tail : Text}
    (hname : isAttributeName name = true) {found : Occurrence}
    (hfound : found ∈ (plain name).occurrences text)
    (hwritten : found.written = name ++ '=' :: tail) : found.attr.value.written = tail := by
  obtain ⟨start, hlead⟩ := boundary_of_mem_occurrences hname hfound
  obtain ⟨hattr, hchain, -⟩ := admits_of_mem_occurrences hname hfound
  have hattr : found.attr.name = name := hattr
  rw [Occurrence.written, Attribute.written, hattr, hchain] at hwritten
  rcases hlead with ⟨-, hlead⟩ | ⟨c, hc, hlead⟩
  · rw [hlead] at hwritten
    simpa using hwritten
  · -- A blank would have to be the first character of the name.
    obtain ⟨d, rest, hcons, hplain⟩ := exists_eq_cons_of_isAttributeName hname
    have hd := not_blank_of_continuesName (hplain d (hcons ▸ List.mem_cons_self))
    rw [hlead, hcons] at hwritten
    have hcd : c = d := (List.cons.inj hwritten).1
    rw [← hcd, hc] at hd
    cases hd

end Pattern

/-- The mark that follows the name of a form's attributes. -/
def Form.mark : Form → Char
  | .plain => '='
  | .modified => ':'

theorem Pattern.Admits.prefix_written {pattern : Pattern} {attr : Attribute}
    (h : pattern.Admits attr) : pattern.name ++ [pattern.form.mark] <+: attr.written := by
  obtain ⟨hname, hform⟩ := h
  rw [Attribute.written, hname]
  apply (List.prefix_append_right_inj _).mpr
  cases hpattern : pattern.form with
  | plain =>
    rw [hpattern] at hform
    rw [hform.1]
    exact List.cons_prefix_cons.mpr ⟨rfl, List.nil_prefix⟩
  | modified =>
    rw [hpattern] at hform
    obtain ⟨modifiers, hchain, -⟩ := hform.1
    rw [hchain]
    exact List.cons_prefix_cons.mpr ⟨rfl, List.nil_prefix⟩

/-- Where an attribute is recognised, its name and the mark behind it stand. -/
theorem Pattern.reader_needsKey {pattern : Pattern}
    (hname : isAttributeName pattern.name = true) :
    pattern.reader.NeedsKey (pattern.name ++ [pattern.form.mark]) := by
  intro atStart text found rest hread
  obtain ⟨hlead, hadmits, rfl⟩ := (reader_read?_eq_some_iff hname).mp hread
  refine ⟨found.lead, hlead, ?_⟩
  rw [Occurrence.written, List.append_assoc]
  exact (List.prefix_append_right_inj _).mpr
    (hadmits.prefix_written.trans (List.prefix_append _ _))

end VariantClasses
