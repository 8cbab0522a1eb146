import VariantClasses.Expression
import VariantClasses.Proofs.Text.Pieces

/-! # Calls and their arguments

Before its first opening parenthesis a call has no parenthesis at all. So a new last
argument has a place in it whenever a parenthesis closes in it, and that place is before the
last one that does (`injectArgument?_eq_none_iff`, `injectArgument?_append_cons`).
-/

namespace VariantClasses

open Text

namespace Text

theorem upToLast?_eq_none_iff {stop : Char} {text : Text} :
    upToLast? stop text = none ↔ stop ∉ text := by
  induction text with
  | nil => simp [upToLast?]
  | cons c rest ih =>
    rw [upToLast?]
    split
    next before after hrest =>
      have hmem : stop ∈ rest := by simp [eq_append_of_upToLast? hrest]
      simp [hmem]
    next hrest =>
      have hnot := ih.mp hrest
      split
      next hc => simp [hc]
      next hc => simp [hnot, Ne.symm hc]

/-- The last stop of a text is the one that no other follows. -/
theorem upToLast?_append_cons {stop : Char} {after : Text} (h : stop ∉ after) (before : Text) :
    upToLast? stop (before ++ stop :: after) = some (before, after) := by
  induction before with
  | nil => rw [List.nil_append, upToLast?, upToLast?_eq_none_iff.mpr h, if_pos rfl]
  | cons c before ih => rw [List.cons_append, upToLast?, ih]

theorem exists_eq_append_of_mem {stop : Char} {text : Text} (h : stop ∈ text) :
    ∃ before after, text = before ++ stop :: after ∧ stop ∉ after := by
  obtain ⟨after, before, hreverse, hafter⟩ :=
    List.eq_append_cons_of_mem (List.mem_reverse.mpr h)
  refine ⟨before.reverse, after.reverse, ?_, by simpa using hafter⟩
  simpa using congrArg List.reverse hreverse

/-! ## Ends of texts -/

theorem trimEnd_append_cons {c : Char} (hc : isBlank c = false) (front rest : Text) :
    trimEnd (front ++ c :: rest) = front ++ c :: trimEnd rest := by
  have hstop : ¬isBlank c = true := by simp [hc]
  rw [trimEnd, trimEnd, List.reverse_append, List.reverse_cons, List.append_assoc,
    List.dropWhile_append]
  split
  next hnil =>
    rw [List.isEmpty_iff] at hnil
    rw [hnil, List.singleton_append, List.dropWhile_cons_of_neg hstop]
    simp
  next => simp

theorem exists_eq_trimEnd_append (text : Text) :
    ∃ blanks, text = trimEnd text ++ blanks ∧ ∀ c ∈ blanks, isBlank c = true := by
  refine ⟨(text.reverse.takeWhile isBlank).reverse, ?_, fun c hc =>
    List.all_eq_true.mp List.all_takeWhile c (List.mem_reverse.mp hc)⟩
  rw [trimEnd, ← List.reverse_append, List.takeWhile_append_dropWhile, List.reverse_reverse]

end Text

/-! ## Template literals -/

/-- A template literal stands between backticks, blanks around it aside. -/
theorem templateBody?_eq_some_iff {expression body : Text} :
    templateBody? expression = some body ↔ expression.trim = '`' :: (body ++ ['`']) := by
  rw [templateBody?]
  constructor
  · intro h
    split at h
    next rest htrim =>
      split at h
      next hlast =>
        obtain ⟨front, rfl⟩ := List.getLast?_eq_some_iff.mp hlast
        rw [htrim, ← Option.some.inj h, List.dropLast_concat]
      next => cases h
    next => cases h
  · intro htrim
    rw [htrim]
    simp

/-! ## Calls -/

theorem not_paren_of_mem_callee {c : Char}
    (h : startsCallee c = true ∨ continuesCallee c = true ∨ isBlank c = true) :
    c ≠ '(' ∧ c ≠ ')' := by
  constructor
  · rintro rfl
    revert h
    decide
  · rintro rfl
    revert h
    decide

theorem not_continuesCallee_paren : ¬continuesCallee '(' = true := by
  decide

/-- A call starts with a dotted name and, behind blanks if any, an opening parenthesis. -/
theorem isCall_eq_true_iff {call : Text} :
    isCall call = true ↔ ∃ c name blanks rest, call = c :: (name ++ (blanks ++ '(' :: rest)) ∧
      startsCallee c = true ∧ (∀ d ∈ name, continuesCallee d = true) ∧
      ∀ d ∈ blanks, isBlank d = true := by
  constructor
  · intro h
    cases call with
    | nil => cases h
    | cons c tail =>
      rw [isCall, Bool.and_eq_true, beq_iff_eq] at h
      obtain ⟨hstart, hopen⟩ := h
      obtain ⟨rest, hrest⟩ := List.head?_eq_some_iff.mp hopen
      refine ⟨c, tail.takeWhile continuesCallee,
        (tail.dropWhile continuesCallee).takeWhile isBlank, rest, ?_, hstart,
        List.all_eq_true.mp List.all_takeWhile, List.all_eq_true.mp List.all_takeWhile⟩
      rw [← hrest, List.takeWhile_append_dropWhile, List.takeWhile_append_dropWhile]
  · rintro ⟨c, name, blanks, rest, rfl, hstart, hname, hblanks⟩
    -- The name may take blanks for its own, and the others are dropped behind it.
    have hdropped : ∃ others, (∀ d ∈ others, isBlank d = true) ∧
        (name ++ (blanks ++ '(' :: rest)).dropWhile continuesCallee = others ++ '(' :: rest := by
      rw [List.dropWhile_append_of_pos hname, List.dropWhile_append]
      split
      next =>
        exact ⟨[], by simp, List.dropWhile_cons_of_neg not_continuesCallee_paren⟩
      next =>
        exact ⟨_, fun d hd => hblanks d ((List.dropWhile_suffix _).subset hd), rfl⟩
    obtain ⟨others, hothers, hdropped⟩ := hdropped
    rw [isCall, hdropped, List.dropWhile_append_of_pos hothers,
      List.dropWhile_cons_of_neg (by decide), hstart]
    rfl

/-- A call is a name and blanks, without parentheses, and then an opening parenthesis. -/
theorem exists_eq_of_isCall {call : Text} (h : isCall call = true) :
    ∃ callee rest, call = callee ++ '(' :: rest ∧ '(' ∉ callee ∧ ')' ∉ callee := by
  obtain ⟨c, name, blanks, rest, rfl, hstart, hname, hblanks⟩ := isCall_eq_true_iff.mp h
  have hcallee : ∀ d ∈ c :: (name ++ blanks), d ≠ '(' ∧ d ≠ ')' := by
    intro d hd
    apply not_paren_of_mem_callee
    rcases List.mem_cons.mp hd with rfl | hd
    · exact .inl hstart
    · exact .inr ((List.mem_append.mp hd).imp (hname d) (hblanks d))
  refine ⟨c :: (name ++ blanks), rest, by simp, ?_, ?_⟩
  · exact fun hmem => (hcallee _ hmem).1 rfl
  · exact fun hmem => (hcallee _ hmem).2 rfl

/-- A parenthesis that closes in a call has an opening one before it. -/
theorem open_mem_of_isCall {before after : Text}
    (hcall : isCall (before ++ ')' :: after) = true) : '(' ∈ before := by
  obtain ⟨callee, rest, hsplit, -, hclose⟩ := exists_eq_of_isCall hcall
  rcases List.append_eq_append_iff.mp hsplit with ⟨inner, hcallee, htail⟩ | ⟨inner, rfl, htail⟩
  · cases inner with
    | nil => cases (List.cons.inj htail).1
    | cons c inner =>
      obtain ⟨rfl, -⟩ := List.cons.inj htail
      exact absurd (by simp [hcallee]) hclose
  · cases inner with
    | nil => cases (List.cons.inj htail).1
    | cons c inner =>
      obtain ⟨rfl, -⟩ := List.cons.inj htail
      exact List.mem_append_right _ List.mem_cons_self

/-- A call takes its new argument before the last parenthesis that closes in it. -/
theorem injectArgument?_append_cons {before after : Text}
    (hcall : isCall (before ++ ')' :: after) = true) (hafter : ')' ∉ after) (literal : Text) :
    injectArgument? (before ++ ')' :: after) literal =
      some (before.trimEnd ++ argumentSeparator before.trimEnd ++ templateLiteral literal ++
        ')' :: after) := by
  have hopen : before.contains '(' = true := by simpa using open_mem_of_isCall hcall
  rw [injectArgument?, upToLast?_append_cons hafter, Option.bind_some]
  exact if_pos hopen

/-- A call takes no argument exactly when no parenthesis closes in it. -/
theorem injectArgument?_eq_none_iff {call : Text} (hcall : isCall call = true) (literal : Text) :
    injectArgument? call literal = none ↔ ')' ∉ call := by
  constructor
  · intro h hmem
    obtain ⟨before, after, rfl, hafter⟩ := exists_eq_append_of_mem hmem
    rw [injectArgument?_append_cons hcall hafter] at h
    cases h
  · intro h
    rw [injectArgument?, upToLast?_eq_none_iff.mpr h, Option.bind_none]

/-- The new argument stands in the call. -/
theorem isInfix_of_injectArgument? {call literal injected : Text}
    (h : injectArgument? call literal = some injected) : literal <:+: injected := by
  obtain ⟨⟨before, after⟩, -, h⟩ := Option.bind_eq_some_iff.mp h
  dsimp only at h
  split at h
  next =>
    obtain rfl := Option.some.inj h
    exact ⟨trimEnd before ++ argumentSeparator (trimEnd before) ++ ['`'], '`' :: ')' :: after,
      by simp [templateLiteral]⟩
  next => cases h

end VariantClasses
