import VariantClasses.Text

/-! # Parts of texts

A part that avoids a separator lies on one side of it. So a part of joined texts that
avoids the separator is a part of one of them.
-/

namespace VariantClasses.Text

theorem includes_iff_isInfix {part text : Text} : includes part text = true ↔ part <:+: text := by
  induction text with
  | nil => simp [includes]
  | cons c rest ih =>
    rw [includes, Bool.or_eq_true, List.isPrefixOf_iff_prefix, ih, List.infix_cons_iff]

theorem includes_eq_false_iff {part text : Text} :
    includes part text = false ↔ ¬part <:+: text := by
  rw [← includes_iff_isInfix, Bool.not_eq_true]

/-- The front of a text that avoids the character behind it lies before that character. -/
theorem prefix_of_prefix_append_cons {part front rest : Text} {c : Char} (hc : c ∉ part)
    (h : part <+: front ++ c :: rest) : part <+: front := by
  induction front generalizing part with
  | nil =>
    cases part with
    | nil => exact List.nil_prefix
    | cons d part =>
      obtain ⟨hd, -⟩ := List.cons_prefix_cons.mp (by simpa using h : d :: part <+: c :: rest)
      exact absurd (hd ▸ List.mem_cons_self) hc
  | cons f front ih =>
    cases part with
    | nil => exact List.nil_prefix
    | cons d part =>
      obtain ⟨hd, hrest⟩ := List.cons_prefix_cons.mp (by simpa using h)
      rw [hd]
      exact List.cons_prefix_cons.mpr ⟨rfl, ih (fun hmem => hc (List.mem_cons_of_mem _ hmem)) hrest⟩

/-- Behind what is skipped, the first character of a text is the same however it is split. -/
theorem eq_of_append_cons_eq {p : Char → Bool} {front rest skipped behind : Text} {c d : Char}
    (hfront : ∀ b ∈ front, p b = true) (hskipped : ∀ b ∈ skipped, p b = true)
    (hc : p c = false) (hd : p d = false) (h : front ++ c :: rest = skipped ++ d :: behind) :
    c = d := by
  have hdrop := congrArg (List.dropWhile p) h
  rw [List.dropWhile_append_of_pos hfront, List.dropWhile_append_of_pos hskipped,
    List.dropWhile_cons_of_neg (by simp [hc]), List.dropWhile_cons_of_neg (by simp [hd])] at hdrop
  exact (List.cons.inj hdrop).1

/-- A front of two texts is one of the first or goes on in the second. -/
theorem prefix_append_cases {part front rest : Text} (h : part <+: front ++ rest) :
    part <+: front ∨ ∃ inner, inner ≠ [] ∧ part = front ++ inner ∧ inner <+: rest := by
  obtain ⟨behind, htext⟩ := h
  rcases List.append_eq_append_iff.mp htext with ⟨inner, hfront, -⟩ | ⟨inner, hpart, hrest⟩
  · exact .inl ⟨inner, hfront.symm⟩
  · by_cases hinner : inner = []
    · exact .inl (by simp [hpart, hinner])
    · exact .inr ⟨inner, hinner, hpart, behind, hrest.symm⟩

/-- A part that avoids a separator lies on one side of it. -/
theorem infix_append_cons_iff {part front rest : Text} {c : Char} (hc : c ∉ part)
    (hne : part ≠ []) : part <:+: front ++ c :: rest ↔ part <:+: front ∨ part <:+: rest := by
  constructor
  · intro h
    induction front with
    | nil =>
      -- A part that starts at the separator would have to be empty.
      rcases List.infix_cons_iff.mp h with hstart | hpart
      · exact absurd (List.prefix_nil.mp (prefix_of_prefix_append_cons hc hstart)) hne
      · exact .inr hpart
    | cons f front ih =>
      rcases List.infix_cons_iff.mp h with hstart | hpart
      · have hfront : part <+: (f :: front) ++ c :: rest := hstart
        exact .inl (prefix_of_prefix_append_cons hc hfront).isInfix
      · exact (ih hpart).imp_left List.infix_cons
  · intro h
    rcases h with h | h
    · exact List.infix_append_of_infix_left h
    · exact List.infix_append_of_infix_right (List.infix_cons h)

/-! ## Joined texts -/

theorem joinWith_cons_cons (separator first second : Text) (rest : List Text) :
    joinWith separator (first :: second :: rest) =
      first ++ separator ++ joinWith separator (second :: rest) :=
  List.intercalate_cons_cons

theorem joinWith_concat (separator last : Text) {front : List Text} (h : front ≠ []) :
    joinWith separator (front ++ [last]) = joinWith separator front ++ (separator ++ last) := by
  induction front with
  | nil => exact absurd rfl h
  | cons first rest ih =>
    cases rest with
    | nil => simp [joinWith, List.intercalate_cons_cons]
    | cons second rest =>
      rw [List.cons_append, List.cons_append, joinWith_cons_cons, joinWith_cons_cons,
        ← List.cons_append, ih (List.cons_ne_nil second rest)]
      simp

theorem infix_joinWith_iff {part : Text} {c : Char} (hc : c ∉ part) (hne : part ≠ [])
    {texts : List Text} : part <:+: joinWith [c] texts ↔ ∃ text ∈ texts, part <:+: text := by
  induction texts with
  | nil => simp [joinWith, hne]
  | cons first rest ih =>
    cases rest with
    | nil => simp [joinWith]
    | cons second rest =>
      rw [joinWith_cons_cons, List.append_assoc, List.singleton_append,
        infix_append_cons_iff hc hne, ih]
      simp

theorem mem_joinWith {separator : Text} {texts : List Text} {c : Char}
    (h : c ∈ joinWith separator texts) : c ∈ separator ∨ ∃ text ∈ texts, c ∈ text := by
  induction texts with
  | nil => simp [joinWith] at h
  | cons first rest ih =>
    cases rest with
    | nil => exact .inr ⟨first, List.mem_cons_self, by simpa [joinWith] using h⟩
    | cons second rest =>
      rw [joinWith_cons_cons] at h
      rcases List.mem_append.mp h with h | h
      · rcases List.mem_append.mp h with h | h
        · exact .inr ⟨first, List.mem_cons_self, h⟩
        · exact .inl h
      · exact (ih h).imp_right fun ⟨text, hmem, hc⟩ => ⟨text, List.mem_cons_of_mem _ hmem, hc⟩

theorem mem_joinWith_of_mem {separator text : Text} {texts : List Text} {c : Char}
    (htext : text ∈ texts) (hc : c ∈ text) : c ∈ joinWith separator texts := by
  induction texts with
  | nil => cases htext
  | cons first rest ih =>
    cases rest with
    | nil =>
      rw [List.mem_singleton.mp htext] at hc
      simpa [joinWith] using hc
    | cons second rest =>
      rw [joinWith_cons_cons]
      rcases List.mem_cons.mp htext with rfl | htext
      · exact List.mem_append_left _ (List.mem_append_left _ hc)
      · exact List.mem_append_right _ (ih htext)

theorem count_joinWith {separator : Text} {c : Char} (hc : c ∉ separator) (texts : List Text) :
    (joinWith separator texts).count c = texts.flatten.count c := by
  induction texts with
  | nil => rfl
  | cons first rest ih =>
    cases rest with
    | nil => simp [joinWith]
    | cons second rest =>
      rw [joinWith_cons_cons, List.count_append, List.count_append, List.count_eq_zero.mpr hc, ih,
        List.flatten_cons (l := first), List.count_append, Nat.add_zero]

theorem joinWith_cons_ne_nil {separator first : Text} {rest : List Text} (h : first ≠ []) :
    joinWith separator (first :: rest) ≠ [] := by
  cases rest with
  | nil => simpa [joinWith] using h
  | cons second rest => simp [joinWith_cons_cons, h]

theorem head?_joinWith {separator : Text} {texts : List Text} (hne : ∀ text ∈ texts, text ≠ [])
    {c : Char} (h : c ∈ (joinWith separator texts).head?) : ∃ text ∈ texts, c ∈ text := by
  cases texts with
  | nil => simp [joinWith] at h
  | cons first rest =>
    cases hfirst : first with
    | nil => exact absurd hfirst (hne first List.mem_cons_self)
    | cons d tail =>
      subst hfirst
      refine ⟨d :: tail, List.mem_cons_self, ?_⟩
      cases rest with
      | nil =>
        have hdc : d = c := by simpa [joinWith] using h
        exact hdc ▸ List.mem_cons_self
      | cons second rest =>
        have hdc : d = c := by simpa [joinWith_cons_cons] using h
        exact hdc ▸ List.mem_cons_self

theorem getLast?_joinWith {separator : Text} {texts : List Text}
    (hne : ∀ text ∈ texts, text ≠ []) {c : Char} (h : c ∈ (joinWith separator texts).getLast?) :
    ∃ text ∈ texts, c ∈ text := by
  induction texts with
  | nil => simp [joinWith] at h
  | cons first rest ih =>
    cases rest with
    | nil =>
      have hlast : c ∈ first := by
        apply List.mem_of_getLast?
        simpa [joinWith] using h
      exact ⟨first, List.mem_cons_self, hlast⟩
    | cons second rest =>
      rw [joinWith_cons_cons, List.getLast?_append] at h
      rcases Option.or_eq_some_iff.mp h with hlast | ⟨hnone, -⟩
      · have hrest : ∀ text ∈ second :: rest, text ≠ [] :=
          fun text htext => hne text (List.mem_cons_of_mem _ htext)
        obtain ⟨text, htext, hc⟩ := ih hrest hlast
        exact ⟨text, List.mem_cons_of_mem _ htext, hc⟩
      · have hsecond : second ≠ [] := hne second (by simp)
        exact absurd (List.getLast?_eq_none_iff.mp hnone) (joinWith_cons_ne_nil hsecond)

end VariantClasses.Text
