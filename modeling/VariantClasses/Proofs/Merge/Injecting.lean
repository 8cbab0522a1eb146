import VariantClasses.Proofs.Merge.Outcome

/-! # Static text as an argument

A call that survives takes the static text as a new last argument, before the last
parenthesis that closes in the expression. That parenthesis closes the call itself exactly
when none closes behind the call (`mergeRun_injects_iff`): what comes behind, such as a
second call, takes the argument otherwise.
-/

namespace VariantClasses

open Text

/-! ## Parentheses -/

/-- The parentheses of a text that follows `depth` open ones: none closes that is not open,
and all are closed in the end. -/
structure BalancedFrom (depth : Nat) (text : Text) : Prop where
  closing : ∀ front, front <+: text → front.count ')' ≤ depth + front.count '('
  closed : depth + text.count '(' = text.count ')'

instance (depth : Nat) (text : Text) : Decidable (BalancedFrom depth text) :=
  decidable_of_iff
    ((∀ length ≤ text.length, (text.take length).count ')' ≤
        depth + (text.take length).count '(') ∧ depth + text.count '(' = text.count ')')
    ⟨fun ⟨hclosing, hclosed⟩ => ⟨fun front hfront => by
        rw [List.prefix_iff_eq_take.mp hfront]
        exact hclosing _ hfront.length_le, hclosed⟩,
      fun h => ⟨fun length _ => h.closing _ (List.take_prefix length text), h.closed⟩⟩

/-- The parenthesis between `front` and `tail` closes the first one that opens. -/
def ClosesFirst (front tail expression : Text) : Prop :=
  expression = front ++ ')' :: tail ∧
    ∃ callee arguments, front = callee ++ '(' :: arguments ∧ '(' ∉ callee ∧
      BalancedFrom 0 arguments

/-- The literal stands before the parenthesis between `front` and `tail`, with a comma and
blanks before it at most. -/
def TakesArgument (front tail literal result : Text) : Prop :=
  ∃ gap, (∀ c ∈ gap, isBlank c = true ∨ c = ',') ∧
    result = (trimEnd front ++ gap) ++ (templateLiteral literal ++ ')' :: tail)

theorem balancedFrom_cons {depth next : Nat} {c : Char} {text : Text}
    (hnext : depth + [c].count '(' = next + [c].count ')') (h : BalancedFrom next text) :
    BalancedFrom depth (c :: text) := by
  have hcount (paren : Char) (front : Text) :
      (c :: front).count paren = front.count paren + [c].count paren := by
    rw [List.count_cons, List.count_singleton]
  refine ⟨fun front hfront => ?_, ?_⟩
  · rcases List.prefix_cons_iff.mp hfront with rfl | ⟨tail, rfl, htail⟩
    · simp
    · have hclosing := h.closing tail htail
      rw [hcount _ tail, hcount _ tail]
      omega
  · have hclosed := h.closed
    rw [hcount _ text, hcount _ text]
    omega

/-- Where more parentheses close than open, the first one in excess has a balanced text
before it. -/
theorem exists_balancedFrom_of_count_lt {depth : Nat} {text : Text}
    (h : depth + text.count '(' < text.count ')') :
    ∃ inner tail, text = inner ++ ')' :: tail ∧ BalancedFrom depth inner := by
  induction text generalizing depth with
  | nil => simp at h
  | cons c rest ih =>
    by_cases hc : c = ')'
    · subst hc
      cases depth with
      | zero => exact ⟨[], rest, rfl, by simp, rfl⟩
      | succ depth =>
        have hrest : depth + rest.count '(' < rest.count ')' := by
          simp at h
          omega
        obtain ⟨inner, tail, rfl, hinner⟩ := ih hrest
        exact ⟨')' :: inner, tail, rfl, balancedFrom_cons rfl hinner⟩
    · have hclose : [c].count ')' = 0 := by simp [hc]
      have hrest : (depth + [c].count '(') + rest.count '(' < rest.count ')' := by
        rw [List.count_cons, List.count_cons] at h
        rw [List.count_singleton] at hclose ⊢
        omega
      obtain ⟨inner, tail, rfl, hinner⟩ := ih hrest
      exact ⟨c :: inner, tail, rfl, balancedFrom_cons (by omega) hinner⟩

/-- The first parenthesis that opens in a call is closed when all are. -/
theorem exists_closesFirst {call : Text} (hcall : isCall call = true)
    (hbalanced : BalancedFrom 0 call) : ∃ front tail, ClosesFirst front tail call := by
  obtain ⟨callee, rest, rfl, hopen, hclose⟩ := exists_eq_of_isCall hcall
  have hexcess : 0 + rest.count '(' < rest.count ')' := by
    have hclosed := hbalanced.closed
    simp [List.count_eq_zero.mpr hopen, List.count_eq_zero.mpr hclose] at hclosed
    omega
  obtain ⟨arguments, tail, rfl, harguments⟩ := exists_balancedFrom_of_count_lt hexcess
  exact ⟨callee ++ '(' :: arguments, tail, by simp, callee, arguments, rfl, hopen, harguments⟩

/-! ## The place of the argument -/

theorem mem_argumentSeparator {front : Text} {c : Char} (h : c ∈ argumentSeparator front) :
    isBlank c = true ∨ c = ',' := by
  have hspace : isBlank ' ' = true := by decide
  unfold argumentSeparator at h
  split at h
  next => cases h
  next =>
    obtain rfl := List.mem_singleton.mp h
    exact .inl hspace
  next =>
    rcases List.mem_cons.mp h with rfl | h
    · exact .inr rfl
    · obtain rfl := List.mem_singleton.mp h
      exact .inl hspace

/-- A parenthesis that closes is the last one or stands before it. -/
theorem eq_or_exists_of_last {front tail before after : Text}
    (hsplit : front ++ ')' :: tail = before ++ ')' :: after) (hafter : ')' ∉ after) :
    (front = before ∧ tail = after) ∨
      ∃ inner, before = front ++ ')' :: inner ∧ tail = inner ++ ')' :: after := by
  rcases List.append_eq_append_iff.mp hsplit with ⟨inner, hbefore, htail⟩ | ⟨inner, hfront, htail⟩
  · cases inner with
    | nil => exact .inl ⟨by simp [hbefore], (List.cons.inj htail).2⟩
    | cons c inner =>
      obtain ⟨rfl, hrest⟩ := List.cons.inj htail
      exact .inr ⟨inner, hbefore, hrest⟩
  · cases inner with
    | nil => exact .inl ⟨by simp [hfront], (List.cons.inj htail).2.symm⟩
    | cons c inner =>
      obtain ⟨rfl, hrest⟩ := List.cons.inj htail
      exact absurd (by simp [hrest]) hafter

/-- What takes an argument before its last parenthesis takes it before the one between
`front` and `tail` exactly when that is the last. -/
theorem takesArgument_iff {front tail before after literal : Text}
    (hsplit : front ++ ')' :: tail = before ++ ')' :: after) (hafter : ')' ∉ after) :
    TakesArgument front tail literal
      (trimEnd before ++ argumentSeparator (trimEnd before) ++ templateLiteral literal ++
        ')' :: after) ↔ ')' ∉ tail := by
  rcases eq_or_exists_of_last hsplit hafter with ⟨rfl, rfl⟩ | ⟨inner, rfl, rfl⟩
  · refine iff_of_true ?_ hafter
    exact ⟨_, fun c hc => mem_argumentSeparator hc, List.append_assoc _ _ _⟩
  · refine iff_of_false ?_ (by simp)
    rintro ⟨gap, hgap, hresult⟩
    obtain ⟨blanks, hfront, hblanks⟩ := exists_eq_trimEnd_append front
    -- Behind the trimmed front and blanks a parenthesis closes, and no literal starts.
    have hrest : blanks ++ ')' :: (trimEnd inner ++ (argumentSeparator (trimEnd
        (front ++ ')' :: inner)) ++ (templateLiteral literal ++ ')' :: after))) =
        gap ++ (templateLiteral literal ++ ')' :: (inner ++ ')' :: after)) := by
      refine List.append_cancel_left (?_ : trimEnd front ++ _ = trimEnd front ++ _)
      rw [← List.append_assoc, ← hfront, ← List.append_assoc (trimEnd front), ← hresult,
        trimEnd_append_cons (by decide)]
      simp
    have hparen : ')' = '`' := by
      refine eq_of_append_cons_eq (p := fun c => isBlank c || c == ',') ?_ ?_ (by decide)
        (by decide) hrest
      · intro c hc
        simp [hblanks c hc]
      · intro c hc
        simpa using hgap c hc
    exact absurd hparen (by decide)

/-- A call that survives in a run with static text takes that text before the last
parenthesis that closes in it. When all its parentheses are closed, the one that closes the
first of them takes the text exactly when no other closes behind it. -/
theorem mergeRun_injects_iff {name : AttributeName} {text : Text} {run : Run} {call : Text}
    (hrun : run ∈ (runReader name.mergedNames).findAll text)
    (hsurvives : Survives run.expressions (some call)) (hcall : isCall call = true)
    (hbalanced : BalancedFrom 0 call) (hstatic : run.static ≠ []) :
    ∃ result, mergeRun name run = (run.lead ++ expressionAttribute name.text result, []) ∧
      (∃ before after, call = before ++ ')' :: after ∧ ')' ∉ after ∧
        TakesArgument before after run.static result) ∧
      (∃ front tail, ClosesFirst front tail call) ∧
      ∀ front tail, ClosesFirst front tail call →
        (TakesArgument front tail run.static result ↔ ')' ∉ tail) := by
  obtain ⟨front, tail, hfirst⟩ := exists_closesFirst hcall hbalanced
  have hclose : ')' ∈ call := by simp [hfirst.1]
  obtain ⟨before, after, rfl, hafter⟩ := exists_eq_append_of_mem hclose
  have hinjected := injectArgument?_append_cons hcall hafter run.static
  refine ⟨_, ?_, ⟨before, after, rfl, hafter, (takesArgument_iff rfl hafter).mpr hafter⟩,
    ⟨front, tail, hfirst⟩, fun front tail hfirst => takesArgument_iff hfirst.1.symm hafter⟩
  rw [expressionAttribute_eq]
  exact mergeRun_eq_of_becomes hrun (.argument hstatic hsurvives hcall hclose hinjected)

/-- Calls in the arguments close before the call does, and what follows it closes nothing. -/
theorem mergeRun_injects_of_nested_call :
    let class_ := AttributeName.class_.text
    let call := "cn(f(x), y ).z".toList
    let text := "<p class='p' class=\x7b cn(f(x), y ).z \x7d>".toList
    let run : Run := ⟨[' '], ⟨class_, none, .single ['p']⟩,
      [([' '], ⟨class_, none, .braced (' ' :: (call ++ [' ']))⟩)]⟩
    run ∈ (runReader AttributeName.class_.mergedNames).findAll text ∧
      Survives run.expressions (some call) ∧ isCall call = true ∧ BalancedFrom 0 call ∧
      run.static ≠ [] ∧ ClosesFirst "cn(f(x), y ".toList ".z".toList call ∧
      ∃ result, mergeRun .class_ run = (run.lead ++ expressionAttribute class_ result, []) ∧
        TakesArgument "cn(f(x), y ".toList ".z".toList run.static result := by
  intro class_ call text run
  have hrun : run ∈ (runReader AttributeName.class_.mergedNames).findAll text := by
    decide +kernel
  have hexpressions : run.expressions = [] ++ call :: [] := by decide +kernel
  have hcall : isCall call = true := by decide +kernel
  have hsurvives : Survives run.expressions (some call) := .call hexpressions hcall (by simp)
  have hbalanced : BalancedFrom 0 call := by decide +kernel
  have hstatic : run.static ≠ [] := by decide +kernel
  have hfirst : ClosesFirst "cn(f(x), y ".toList ".z".toList call :=
    ⟨rfl, "cn".toList, "f(x), y ".toList, rfl, by decide, by decide +kernel⟩
  obtain ⟨result, hmerged, -, -, htakes⟩ :=
    mergeRun_injects_iff hrun hsurvives hcall hbalanced hstatic
  exact ⟨hrun, hsurvives, hcall, hbalanced, hstatic, hfirst, result, hmerged,
    (htakes _ _ hfirst).mpr (by decide)⟩

/-- Of two calls beside each other the second takes the static text, and not the one that
the expression starts with. -/
theorem not_takesArgument_of_second_call :
    let class_ := AttributeName.class_.text
    let call := "f(a) || g(b)".toList
    let text := "<p class=\"p\" class=\x7bf(a) || g(b)\x7d>".toList
    let run : Run := ⟨[' '], ⟨class_, none, .double ['p']⟩,
      [([' '], ⟨class_, none, .braced call⟩)]⟩
    run ∈ (runReader AttributeName.class_.mergedNames).findAll text ∧
      Survives run.expressions (some call) ∧ isCall call = true ∧ BalancedFrom 0 call ∧
      (∀ c ∈ call, c ∉ ['"', '\'', '`']) ∧ run.static = ['p'] ∧
      ClosesFirst "f(a".toList " || g(b)".toList call ∧
      mergeRun .class_ run =
        (run.lead ++ expressionAttribute class_ "f(a) || g(b, `p`)".toList, []) ∧
      ¬TakesArgument "f(a".toList " || g(b)".toList run.static "f(a) || g(b, `p`)".toList := by
  intro class_ call text run
  have hexpressions : run.expressions = [] ++ call :: [] := by decide +kernel
  have hcall : isCall call = true := by decide +kernel
  have hquotes : call.all (· ∉ ['"', '\'', '`']) = true := by decide +kernel
  have hsplit : "f(a".toList ++ ')' :: " || g(b)".toList = "f(a) || g(b".toList ++ ')' :: [] := by
    decide
  refine ⟨by decide +kernel, .call hexpressions hcall (by simp), hcall, by decide +kernel,
    fun c hc => of_decide_eq_true (List.all_eq_true.mp hquotes c hc), by decide +kernel,
    ⟨rfl, ['f'], ['a'], rfl, by decide, by decide +kernel⟩, by decide +kernel, fun htakes => ?_⟩
  exact absurd ((takesArgument_iff hsplit List.not_mem_nil).mp htakes) (by decide)

end VariantClasses
