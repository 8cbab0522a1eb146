import VariantClasses.Attribute.Value

/-! # Values that read back

A quoted value reads back when its quote does not stand inside it, a braced one when its
braces are balanced and nest no deeper than the limit. Reading accepts exactly what is
written so (`quotedValue?_eq_some_iff`, `bracedValue?_eq_some_iff`).
-/

namespace VariantClasses

namespace Text

theorem upTo?_append_cons {stop : Char} {before : Text} (h : stop ∉ before) (after : Text) :
    upTo? stop (before ++ stop :: after) = some (before, after) := by
  induction before with
  | nil => simp [upTo?]
  | cons c before ih =>
    have hc : c ≠ stop := fun heq => h (heq ▸ List.mem_cons_self)
    have hbefore : stop ∉ before := fun hmem => h (List.mem_cons_of_mem _ hmem)
    rw [List.cons_append, upTo?, if_neg hc, ih hbefore, Option.map_some]

theorem not_mem_of_upTo? {stop : Char} {text before after : Text}
    (h : upTo? stop text = some (before, after)) : stop ∉ before := by
  induction text generalizing before with
  | nil => simp [upTo?] at h
  | cons c rest ih =>
    unfold upTo? at h
    split at h
    next =>
      obtain ⟨rfl, -⟩ := Prod.mk.inj (Option.some.inj h)
      exact List.not_mem_nil
    next hc =>
      obtain ⟨⟨inner, tail⟩, hinner, hpair⟩ := Option.map_eq_some_iff.mp h
      obtain ⟨rfl, rfl⟩ := Prod.mk.inj hpair
      intro hmem
      rcases List.mem_cons.mp hmem with heq | hmem
      · exact hc heq.symm
      · exact ih hinner hmem

end Text

/-! ## Braces -/

/-- The braces of a text that follows `nesting` open ones: none closes that is not open,
no more than the limit are open at any place, and all are closed in the end. -/
structure NestsFrom (nesting : Nat) (text : Text) : Prop where
  closing : ∀ front, front <+: text → front.count '\x7d' ≤ nesting + front.count '\x7b'
  opening : ∀ front, front <+: text →
    nesting + front.count '\x7b' ≤ front.count '\x7d' + nestingLimit
  closed : nesting + text.count '\x7b' = text.count '\x7d'

theorem nestsFrom_nil_iff {nesting : Nat} : NestsFrom nesting [] ↔ nesting = 0 := by
  constructor
  · intro h
    simpa using h.closed
  · rintro rfl
    exact ⟨by simp, by simp, by simp⟩

/-- What a first character makes of the braces is left to the rest of the text. -/
theorem nestsFrom_cons_iff {nesting next : Nat} {c : Char} {text : Text}
    (hnext : nesting + [c].count '\x7b' = next + [c].count '\x7d') :
    NestsFrom nesting (c :: text) ↔ nesting ≤ nestingLimit ∧ NestsFrom next text := by
  have hcount (b : Char) (front : Text) : (c :: front).count b = front.count b + [c].count b := by
    rw [List.count_cons, List.count_singleton]
  constructor
  · intro h
    refine ⟨by simpa using h.opening [] List.nil_prefix, ?_, ?_, ?_⟩
    · intro front hfront
      have hclosing := h.closing (c :: front) (List.cons_prefix_cons.mpr ⟨rfl, hfront⟩)
      rw [hcount _ front, hcount _ front] at hclosing
      omega
    · intro front hfront
      have hopening := h.opening (c :: front) (List.cons_prefix_cons.mpr ⟨rfl, hfront⟩)
      rw [hcount _ front, hcount _ front] at hopening
      omega
    · have hclosed := h.closed
      rw [hcount _ text, hcount _ text] at hclosed
      omega
  · intro h
    obtain ⟨hlimit, h⟩ := h
    refine ⟨fun front hfront => ?_, fun front hfront => ?_, ?_⟩
    · rcases List.prefix_cons_iff.mp hfront with rfl | ⟨tail, rfl, htail⟩
      · simp
      · have hclosing := h.closing tail htail
        rw [hcount _ tail, hcount _ tail]
        omega
    · rcases List.prefix_cons_iff.mp hfront with rfl | ⟨tail, rfl, htail⟩
      · simpa using hlimit
      · have hopening := h.opening tail htail
        rw [hcount _ tail, hcount _ tail]
        omega
    · have hclosed := h.closed
      rw [hcount _ text, hcount _ text]
      omega

theorem not_nestsFrom_zero_close (text : Text) : ¬NestsFrom 0 ('\x7d' :: text) := by
  intro h
  simpa using h.closing ['\x7d'] (List.cons_prefix_cons.mpr ⟨rfl, List.nil_prefix⟩)

/-- The closing brace of a value is the one behind the text whose braces nest. -/
theorem closeBrace?_eq_some_iff {nesting : Nat} {text body after : Text}
    (hlimit : nesting ≤ nestingLimit) : closeBrace? nesting text = some (body, after) ↔
      NestsFrom nesting body ∧ text = body ++ '\x7d' :: after := by
  induction text generalizing nesting body with
  | nil => simp [closeBrace?]
  | cons c rest ih =>
    -- A character that does not close the value goes to the body.
    have step {next : Nat} (hle : next ≤ nestingLimit) (hopen : nesting = 0 → c ≠ '\x7d')
        (hnext : nesting + [c].count '\x7b' = next + [c].count '\x7d') :
        (closeBrace? next rest).map (fun found => (c :: found.1, found.2)) =
            some (body, after) ↔
          NestsFrom nesting body ∧ c :: rest = body ++ '\x7d' :: after := by
      constructor
      · intro h
        obtain ⟨⟨inner, tail⟩, hinner, hpair⟩ := Option.map_eq_some_iff.mp h
        obtain ⟨rfl, rfl⟩ := Prod.mk.inj hpair
        obtain ⟨hnests, rfl⟩ := (ih hle).mp hinner
        exact ⟨(nestsFrom_cons_iff hnext).mpr ⟨hlimit, hnests⟩, rfl⟩
      · intro h
        obtain ⟨hnests, htext⟩ := h
        cases body with
        | nil =>
          obtain ⟨rfl, -⟩ := List.cons.inj htext
          exact absurd rfl (hopen (nestsFrom_nil_iff.mp hnests))
        | cons b inner =>
          obtain ⟨rfl, rfl⟩ := List.cons.inj htext
          have hinner := (ih hle).mpr ⟨((nestsFrom_cons_iff hnext).mp hnests).2, rfl⟩
          rw [hinner, Option.map_some]
    unfold closeBrace?
    split
    next hc =>
      subst hc
      cases nesting with
      | zero =>
        constructor
        · intro h
          obtain ⟨rfl, rfl⟩ := Prod.mk.inj (Option.some.inj h)
          exact ⟨nestsFrom_nil_iff.mpr rfl, rfl⟩
        · intro h
          obtain ⟨hnests, htext⟩ := h
          cases body with
          | nil =>
            obtain ⟨-, rfl⟩ := List.cons.inj htext
            rfl
          | cons b inner =>
            obtain ⟨rfl, -⟩ := List.cons.inj htext
            exact absurd hnests (not_nestsFrom_zero_close inner)
      | succ nesting => exact step (by omega) (by simp) (by simp)
    next hclose =>
      split
      next hc =>
        subst hc
        split
        next hlt => exact step hlt (by simp) (by simp)
        next hlt =>
          constructor
          · simp
          · intro h
            obtain ⟨hnests, htext⟩ := h
            cases body with
            | nil => exact absurd (List.cons.inj htext).1 hclose
            | cons b inner =>
              obtain ⟨rfl, -⟩ := List.cons.inj htext
              have hopening := hnests.opening ['\x7b']
                (List.cons_prefix_cons.mpr ⟨rfl, List.nil_prefix⟩)
              simp at hopening
              omega
      next hopen =>
        have hno (b : Char) (hb : c ≠ b) : [c].count b = 0 := by simp [hb]
        exact step hlimit (fun _ => hclose) (by rw [hno _ hopen, hno _ hclose])

/-! ## Values -/

namespace Value

/-- The closing mark of a value does not stand inside it. -/
def IsClosed : Value → Prop
  | .double body => '"' ∉ body
  | .single body => '\'' ∉ body
  | .braced body => NestsFrom 0 body

end Value

/-- A quoted value is written between quotes of one kind. -/
theorem exists_quote {value : Value} {body : Text} (h : value.quotedBody? = some body) :
    ∃ quote, (quote = '"' ∨ quote = '\'') ∧ value.written = quote :: (body ++ [quote]) := by
  cases value with
  | double inner =>
    obtain rfl := Option.some.inj h
    exact ⟨'"', .inl rfl, rfl⟩
  | single inner =>
    obtain rfl := Option.some.inj h
    exact ⟨'\'', .inr rfl, rfl⟩
  | braced inner => cases h

theorem quotedValue?_eq_some_iff {text rest : Text} {value : Value} :
    quotedValue? text = some (value, rest) ↔
      (value.IsClosed ∧ value.quotedBody?.isSome) ∧ text = value.written ++ rest := by
  constructor
  · intro h
    refine ⟨?_, eq_append_of_quotedValue? h⟩
    unfold quotedValue? at h
    split at h
    · obtain ⟨⟨body, after⟩, hbody, hpair⟩ := Option.map_eq_some_iff.mp h
      obtain ⟨rfl, -⟩ := Prod.mk.inj hpair
      exact ⟨Text.not_mem_of_upTo? hbody, rfl⟩
    · obtain ⟨⟨body, after⟩, hbody, hpair⟩ := Option.map_eq_some_iff.mp h
      obtain ⟨rfl, -⟩ := Prod.mk.inj hpair
      exact ⟨Text.not_mem_of_upTo? hbody, rfl⟩
    · simp at h
  · intro h
    obtain ⟨⟨hclosed, hquoted⟩, rfl⟩ := h
    cases value with
    | double body => simp [Value.written, quotedValue?, Text.upTo?_append_cons hclosed]
    | single body => simp [Value.written, quotedValue?, Text.upTo?_append_cons hclosed]
    | braced body => simp [Value.quotedBody?] at hquoted

theorem bracedValue?_eq_some_iff {text rest : Text} {value : Value} :
    bracedValue? text = some (value, rest) ↔
      (value.IsClosed ∧ value.quotedBody? = none) ∧ text = value.written ++ rest := by
  constructor
  · intro h
    refine ⟨?_, eq_append_of_bracedValue? h⟩
    unfold bracedValue? at h
    split at h
    · obtain ⟨⟨body, after⟩, hbody, hpair⟩ := Option.map_eq_some_iff.mp h
      obtain ⟨rfl, -⟩ := Prod.mk.inj hpair
      exact ⟨((closeBrace?_eq_some_iff (Nat.zero_le _)).mp hbody).1, rfl⟩
    · simp at h
  · intro h
    obtain ⟨⟨hclosed, hbraced⟩, rfl⟩ := h
    cases value with
    | double body => simp [Value.quotedBody?] at hbraced
    | single body => simp [Value.quotedBody?] at hbraced
    | braced body =>
      have hbody : closeBrace? 0 (body ++ '\x7d' :: rest) = some (body, rest) :=
        (closeBrace?_eq_some_iff (Nat.zero_le _)).mpr ⟨hclosed, rfl⟩
      simp [Value.written, bracedValue?, hbody]

end VariantClasses
