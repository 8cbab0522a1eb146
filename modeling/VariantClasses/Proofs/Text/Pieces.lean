import VariantClasses.Proofs.Text.Infix
import VariantClasses.Text.Blank

/-! # Trimming and the pieces between separators

A piece of a split text is a stretch without separators that a separator or an end of
the text bounds on both sides (`mem_splitOnP_iff`). Words are such stretches between
blanks, and trimming takes blanks off the two ends only.
-/

namespace VariantClasses.Text

/-! ## Pieces -/

theorem mem_splitOnP_append_cons {p : Char → Bool} {front rest piece : Text} {c : Char}
    (hc : p c = true) : piece ∈ (front ++ c :: rest).splitOnP p ↔
      piece ∈ front.splitOnP p ∨ piece ∈ rest.splitOnP p := by
  rw [List.splitOnP_append_cons front rest hc, List.mem_append]

/-- The pieces of a text are its stretches without separators that cannot be extended. -/
theorem mem_splitOnP_iff {p : Char → Bool} {text piece : Text} :
    piece ∈ text.splitOnP p ↔
      (∀ c ∈ piece, p c = false) ∧ ∃ before after, text = before ++ (piece ++ after) ∧
        (before = [] ∨ ∃ front c, p c = true ∧ before = front ++ [c]) ∧
        (after = [] ∨ ∃ c rest, p c = true ∧ after = c :: rest) := by
  constructor
  · intro h
    -- Each step takes the text up to its first separator off, which is one piece.
    induction hlength : text.length using Nat.strongRecOn generalizing text with
    | ind length ih =>
      cases hfind : text.find? p with
      | none =>
        have hfree : ∀ c ∈ text, p c = false := fun c hc => by
          simpa using List.find?_eq_none.mp hfind c hc
        rw [List.splitOnP_eq_singleton hfree, List.mem_singleton] at h
        subst h
        exact ⟨hfree, [], [], by simp, .inl rfl, .inl rfl⟩
      | some c =>
        obtain ⟨hc, front, rest, rfl, hfront⟩ := List.find?_eq_some_iff_append.mp hfind
        have hfree : ∀ d ∈ front, p d = false := fun d hd => by simpa using hfront d hd
        rw [List.splitOnP_append_cons_of_forall_mem hfree c hc, List.mem_cons] at h
        rcases h with rfl | h
        · exact ⟨hfree, [], c :: rest, by simp, .inl rfl, .inr ⟨c, rest, hc, rfl⟩⟩
        · have hlt : rest.length < length := by
            rw [← hlength, List.length_append, List.length_cons]
            omega
          obtain ⟨hpiece, before, after, hrest, hbefore, hafter⟩ := ih rest.length hlt h rfl
          -- The separator taken off bounds a piece that nothing stands before.
          refine ⟨hpiece, front ++ c :: before, after, by simp [hrest], .inr ?_, hafter⟩
          rcases hbefore with rfl | ⟨inner, d, hd, rfl⟩
          · exact ⟨front, c, hc, rfl⟩
          · exact ⟨front ++ c :: inner, d, hd, by simp⟩
  · intro h
    obtain ⟨hpiece, before, after, rfl, hbefore, hafter⟩ := h
    have hmem : piece ∈ (piece ++ after).splitOnP p := by
      rcases hafter with rfl | ⟨c, rest, hc, rfl⟩
      · rw [List.append_nil, List.splitOnP_eq_singleton hpiece]
        exact List.mem_singleton_self piece
      · rw [List.splitOnP_append_cons_of_forall_mem hpiece c hc]
        exact List.mem_cons_self
    rcases hbefore with rfl | ⟨front, c, hc, rfl⟩
    · exact hmem
    · rw [List.append_assoc, List.singleton_append]
      exact (mem_splitOnP_append_cons hc).mpr (.inr hmem)

theorem infix_of_mem_splitOnP {p : Char → Bool} {text piece : Text}
    (h : piece ∈ text.splitOnP p) : piece <:+: text := by
  obtain ⟨-, before, after, rfl, -, -⟩ := mem_splitOnP_iff.mp h
  exact ⟨before, after, by simp⟩

theorem infix_of_mem_splitOn {c : Char} {text piece : Text} (h : piece ∈ text.splitOn c) :
    piece <:+: text :=
  infix_of_mem_splitOnP h

theorem not_mem_of_mem_splitOn {c : Char} {text piece : Text} (h : piece ∈ text.splitOn c) :
    c ∉ piece := by
  intro hc
  simpa using (mem_splitOnP_iff.mp h).1 c hc

theorem splitOnP_congr {p q : Char → Bool} {text : Text} (h : ∀ c ∈ text, p c = q c) :
    text.splitOnP p = text.splitOnP q := by
  induction text with
  | nil => rfl
  | cons c rest ih =>
    rw [List.splitOnP_cons_eq_if_modifyHead, List.splitOnP_cons_eq_if_modifyHead,
      h c List.mem_cons_self, ih fun d hd => h d (List.mem_cons_of_mem _ hd)]

/-! ## Trimming -/

/-- A text is what trimming leaves, between blanks. -/
theorem exists_eq_append_trim (text : Text) :
    ∃ before after, text = before ++ (text.trim ++ after) ∧ (∀ c ∈ before, isBlank c = true) ∧
      ∀ c ∈ after, isBlank c = true := by
  refine ⟨text.takeWhile isBlank, (text.trimStart.reverse.takeWhile isBlank).reverse, ?_,
    fun c hc => List.all_eq_true.mp List.all_takeWhile c hc, ?_⟩
  · have hend : text.trim ++ (text.trimStart.reverse.takeWhile isBlank).reverse =
        text.trimStart := by
      rw [trim, trimEnd, ← List.reverse_append, List.takeWhile_append_dropWhile,
        List.reverse_reverse]
    rw [hend, trimStart, List.takeWhile_append_dropWhile]
  · intro c hc
    exact List.all_eq_true.mp List.all_takeWhile c (List.mem_reverse.mp hc)

theorem trim_isInfix (text : Text) : text.trim <:+: text := by
  obtain ⟨before, after, htext, -, -⟩ := exists_eq_append_trim text
  exact ⟨before, after, by rw [List.append_assoc, ← htext]⟩

theorem trimEnd_eq_self {text : Text} (hlast : ∀ c ∈ text.getLast?, isBlank c = false) :
    text.trimEnd = text := by
  rw [trimEnd]
  cases hreverse : text.reverse with
  | nil => simpa using hreverse.symm
  | cons c rest =>
    have hc : isBlank c = false := hlast c (by simp [← List.head?_reverse, hreverse])
    rw [List.dropWhile_cons_of_neg (by simp [hc]), ← hreverse, List.reverse_reverse]

theorem trim_eq_self {text : Text} (hhead : ∀ c ∈ text.head?, isBlank c = false)
    (hlast : ∀ c ∈ text.getLast?, isBlank c = false) : text.trim = text := by
  have hstart : text.trimStart = text := by
    cases text with
    | nil => rfl
    | cons c rest => exact List.dropWhile_cons_of_neg (by simp [hhead c rfl])
  rw [trim, hstart, trimEnd_eq_self hlast]

theorem not_blank_of_getLast?_trim {text : Text} {c : Char} (h : text.trim.getLast? = some c) :
    isBlank c = false := by
  rw [trim, trimEnd, List.getLast?_reverse] at h
  simpa [h] using List.head?_dropWhile_not isBlank text.trimStart.reverse

/-- A blank at the end is nothing to trimming. -/
theorem trim_concat {c : Char} (hc : isBlank c = true) (text : Text) :
    trim (text ++ [c]) = trim text := by
  have hstart : trimStart (text ++ [c]) = [] ∧ trimStart text = [] ∨
      trimStart (text ++ [c]) = trimStart text ++ [c] := by
    rw [trimStart, trimStart, List.dropWhile_append]
    split
    next hempty => exact .inl ⟨by simp [hc], List.isEmpty_iff.mp hempty⟩
    next => exact .inr rfl
  rcases hstart with ⟨hboth, hempty⟩ | hboth
  · rw [trim, trim, hboth, hempty]
  · rw [trim, trim, hboth, trimEnd, trimEnd, List.reverse_concat, List.dropWhile_cons_of_pos hc]

theorem trim_joinWith {separator : Text} {texts : List Text} (hne : ∀ text ∈ texts, text ≠ [])
    (hblank : ∀ text ∈ texts, ∀ c ∈ text, isBlank c = false) :
    trim (joinWith separator texts) = joinWith separator texts := by
  apply trim_eq_self
  · intro c hc
    obtain ⟨text, htext, hmem⟩ := head?_joinWith hne hc
    exact hblank text htext c hmem
  · intro c hc
    obtain ⟨text, htext, hmem⟩ := getLast?_joinWith hne hc
    exact hblank text htext c hmem

end VariantClasses.Text
