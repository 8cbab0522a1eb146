import VariantClasses.Proofs.Expression
import VariantClasses.Proofs.Merge.Shares

/-! # What a run merges to

The static text of a run is what its values enclose, and of its expressions at most one
survives: the last call, or else the first that is not empty. These two decide what the run
becomes (`mergeRun_becomes_iff`), and the static text always stands in it as one piece.
-/

namespace VariantClasses

open Text

/-! ## Parts of a run -/

/-- The expression of a braced value that is no template literal, without the blanks around
it. -/
def Value.expression? : Value → Option Text
  | .double _ | .single _ => none
  | .braced body => if (templateBody? body).isNone then some body.trim else none

/-- What the values of a run enclose, without the blanks around and the empty ones. -/
def Run.staticTexts (run : Run) : List Text :=
  (run.attrs.filterMap fun attr => attr.value.enclosed?.map trim).filter (!·.isEmpty)

def Run.static (run : Run) : Text :=
  joinWith [' '] run.staticTexts

def Run.expressions (run : Run) : List Text :=
  run.attrs.filterMap fun attr => attr.value.expression?

/-- The expression that survives among some: the last call, or else the first that is not
empty. -/
inductive Survives (expressions : List Text) : Option Text → Prop
  | call {front back : List Text} {call : Text} (hsplit : expressions = front ++ call :: back)
      (hcall : isCall call = true) (hlast : ∀ other ∈ back, isCall other = false) :
      Survives expressions (some call)
  | other {front back : List Text} {expression : Text}
      (hcalls : ∀ other ∈ expressions, isCall other = false)
      (hsplit : expressions = front ++ expression :: back) (hne : expression ≠ [])
      (hfirst : ∀ other ∈ front, other = []) : Survives expressions (some expression)
  | nothing (hempty : ∀ other ∈ expressions, other = []) : Survives expressions none

/-- What a run becomes, and what is to be said about it. -/
inductive Run.Becomes (name : Text) (run : Run) : Text → List Warning → Prop
  /-- Nothing is left, and the lead goes with it. -/
  | dropped (hstatic : run.static = []) (hnone : Survives run.expressions none) :
      Becomes name run [] []
  | expression {expression : Text} (hstatic : run.static = [])
      (hsome : Survives run.expressions (some expression)) :
      Becomes name run (run.lead ++ (name ++ "=\x7b".toList ++ expression ++ "\x7d".toList)) []
  | static (hstatic : run.static ≠ []) (hnone : Survives run.expressions none) :
      Becomes name run (run.lead ++ staticAttribute name run.static) []
  /-- The static text is an argument of the call. -/
  | argument {call injected : Text} (hstatic : run.static ≠ [])
      (hsome : Survives run.expressions (some call)) (hcall : isCall call = true)
      (hclose : ')' ∈ call) (hinjected : injectArgument? call run.static = some injected) :
      Becomes name run (run.lead ++ (name ++ "=\x7b".toList ++ injected ++ "\x7d".toList)) []
  /-- No parenthesis closes in the call, which is worth a message. -/
  | unclosed {call : Text} (hstatic : run.static ≠ [])
      (hsome : Survives run.expressions (some call)) (hcall : isCall call = true)
      (hclose : ')' ∉ call) :
      Becomes name run
        (run.lead ++ (name ++ "=\x7b`".toList ++ run.static ++ " $\x7b".toList ++ call ++
          "\x7d`\x7d".toList))
        [.unclosedCall call]
  | interpolated {expression : Text} (hstatic : run.static ≠ [])
      (hsome : Survives run.expressions (some expression)) (hcall : isCall expression = false) :
      Becomes name run
        (run.lead ++ (name ++ "=\x7b`".toList ++ run.static ++ " $\x7b".toList ++ expression ++
          "\x7d`\x7d".toList))
        []

/-! ## Survivors -/

section Survivors

variable {expressions : List Text}

/-- Of any expressions one survives, or none does. -/
theorem exists_survives (expressions : List Text) : ∃ survivor, Survives expressions survivor := by
  cases hlast : expressions.reverse.find? isCall with
  | some call =>
    obtain ⟨hcall, back, front, hreverse, hback⟩ := List.find?_eq_some_iff_append.mp hlast
    have hsplit : expressions = front.reverse ++ call :: back.reverse := by
      simpa using congrArg List.reverse hreverse
    exact ⟨some call, .call hsplit hcall fun other hother => by
      simpa using hback other (List.mem_reverse.mp hother)⟩
  | none =>
    have hcalls : ∀ other ∈ expressions, isCall other = false := fun other hother => by
      simpa using List.find?_eq_none.mp hlast other (List.mem_reverse.mpr hother)
    cases hfirst : expressions.find? (!·.isEmpty) with
    | some expression =>
      obtain ⟨hne, front, back, hsplit, hfront⟩ := List.find?_eq_some_iff_append.mp hfirst
      exact ⟨some expression, .other hcalls hsplit (by simpa using hne) fun other hother => by
        simpa using hfront other hother⟩
    | none =>
      exact ⟨none, .nothing fun other hother => by
        simpa using List.find?_eq_none.mp hfirst other hother⟩

variable {survivor : Option Text}

theorem Survives.getLast?_filter (h : Survives expressions survivor) :
    (expressions.filter isCall).getLast? = survivor.filter isCall := by
  have hnone (hcalls : ∀ other ∈ expressions, isCall other = false) :
      (expressions.filter isCall).getLast? = none := by
    rw [List.getLast?_eq_none_iff, List.filter_eq_nil_iff]
    intro other hother
    simp [hcalls other hother]
  cases h with
  | @call front back call hsplit hcall hlast =>
    have hback : back.filter isCall = [] :=
      List.filter_eq_nil_iff.mpr fun other hother => by simp [hlast other hother]
    rw [hsplit, List.filter_append, List.filter_cons_of_pos hcall, hback, Option.filter_some,
      if_pos hcall]
    exact List.getLast?_concat
  | @other _ _ expression hcalls hsplit =>
    have hother := hcalls expression (by simp [hsplit])
    simpa [Option.filter_some, hother] using hnone hcalls
  | nothing hempty =>
    refine hnone fun other hother => ?_
    rw [hempty other hother]
    rfl

/-- Where no call survives there was none, and the first expression that is not empty does. -/
theorem Survives.head?_filter (h : Survives expressions survivor)
    (hcall : survivor.filter isCall = none) :
    ((expressions.filter (!isCall ·)).filter (!·.isEmpty)).head? = survivor := by
  have hcalls := h.getLast?_filter
  rw [hcall, List.getLast?_eq_none_iff, List.filter_eq_nil_iff] at hcalls
  have hall : expressions.filter (!isCall ·) = expressions :=
    List.filter_eq_self.mpr fun other hother => by simpa using hcalls other hother
  rw [hall, List.head?_filter]
  cases h with
  | call _ hsome => simp [Option.filter_some, hsome] at hcall
  | other _ hsplit hne hfirst =>
    exact List.find?_eq_some_iff_append.mpr
      ⟨by simpa using hne, _, _, hsplit, fun other hother => by simp [hfirst other hother]⟩
  | nothing hempty => exact List.find?_eq_none.mpr fun other hother => by simp [hempty other hother]

end Survivors

/-! ## Contributions -/

section Contributions

/-- A value encloses a static text or is an expression. -/
theorem Value.share_cases (value : Value) :
    (∃ text, value.enclosed? = some text ∧ value.expression? = none ∧
      value.share = .literal text.trim) ∨
    ∃ expression, value.enclosed? = none ∧ value.expression? = some expression ∧
      value.share = if isCall expression then .call expression else .other expression := by
  cases value with
  | double body => exact .inl ⟨body, rfl, rfl, rfl⟩
  | single body => exact .inl ⟨body, rfl, rfl, rfl⟩
  | braced body =>
    cases htemplate : templateBody? body with
    | some template =>
      exact .inl ⟨template, htemplate, by simp [expression?, htemplate],
        by simp [share, htemplate]⟩
    | none =>
      exact .inr ⟨body.trim, htemplate, by simp [expression?, htemplate],
        by simp [share, htemplate]⟩

variable (run : Run)

theorem staticTexts_shares : VariantClasses.staticTexts run.shares = run.staticTexts := by
  rw [VariantClasses.staticTexts, Run.shares, Run.staticTexts, List.filterMap_map,
    List.filter_filterMap]
  congr 1
  funext attr
  rcases attr.value.share_cases with
    ⟨text, henclosed, -, hshare⟩ | ⟨expression, henclosed, -, hshare⟩
  · cases htext : text.trim <;> simp [henclosed, hshare, htext, Option.filter_some]
  · cases hcall : isCall expression <;> simp [henclosed, hshare, hcall]

theorem calls_shares : calls run.shares = run.expressions.filter isCall := by
  rw [calls, Run.shares, Run.expressions, List.filterMap_map, List.filter_filterMap]
  congr 1
  funext attr
  rcases attr.value.share_cases with
    ⟨text, -, hexpression, hshare⟩ | ⟨expression, -, hexpression, hshare⟩
  · simp [hexpression, hshare]
  · cases hcall : isCall expression <;> simp [hexpression, hshare, hcall, Option.filter_some]

theorem otherExpressions_shares : otherExpressions run.shares =
    (run.expressions.filter (!isCall ·)).filter (!·.isEmpty) := by
  rw [otherExpressions, Run.shares, Run.expressions, List.filterMap_map, List.filter_filterMap,
    List.filter_filterMap]
  congr 1
  funext attr
  rcases attr.value.share_cases with
    ⟨text, -, hexpression, hshare⟩ | ⟨expression, -, hexpression, hshare⟩
  · simp [hexpression, hshare]
  · cases hcall : isCall expression with
    | true => simp [hexpression, hshare, hcall, Option.filter_some]
    | false => cases expression <;> simp [hexpression, hshare, hcall, Option.filter_some]

end Contributions

/-! ## Merged runs -/

theorem Run.static_eq_nil_iff {run : Run} : run.static = [] ↔ run.staticTexts = [] := by
  constructor
  · intro h
    cases htexts : run.staticTexts with
    | nil => rfl
    | cons text texts =>
      have hmem : text ∈ run.staticTexts := htexts ▸ List.mem_cons_self
      have htext : text ≠ [] := by simpa using (List.mem_filter.mp hmem).2
      rw [Run.static, htexts] at h
      exact absurd h (joinWith_cons_ne_nil htext)
  · intro h
    rw [Run.static, h]
    rfl

theorem expressionAttribute_eq (name expression : Text) :
    expressionAttribute name expression =
      name ++ "=\x7b".toList ++ expression ++ "\x7d".toList := by
  simp [expressionAttribute]

theorem expressionAttribute_interpolated (name static expression : Text) :
    expressionAttribute name (interpolated static expression) =
      name ++ "=\x7b`".toList ++ static ++ " $\x7b".toList ++ expression ++
        "\x7d`\x7d".toList := by
  simp [expressionAttribute, interpolated, templateLiteral, interpolation]

section Merging

variable {name : AttributeName} {run : Run} (hrun : run.IsOf name.mergedNames)
  (hlead : ∀ c ∈ run.lead, isBlank c = true)

include hrun hlead

/-- The rule determines what a run becomes. -/
theorem mergeRun_of_becomes {merged : Text} {warnings : List Warning}
    (h : run.Becomes name.text merged warnings) : mergeRun name run = (merged, warnings) := by
  have hcalls {survivor : Option Text} (h : Survives run.expressions survivor) :
      (calls run.shares).getLast? = survivor.filter isCall :=
    calls_shares run ▸ h.getLast?_filter
  have hothers {survivor : Option Text} (h : Survives run.expressions survivor)
      (hcall : survivor.filter isCall = none) :
      (otherExpressions run.shares).head? = survivor :=
    otherExpressions_shares run ▸ h.head?_filter hcall
  rw [mergeRun_eq hrun hlead, mergeShares, staticTexts_shares, ← Run.static]
  cases h with
  | dropped hstatic hnone =>
    simp [Run.static_eq_nil_iff.mp hstatic, hcalls hnone, hothers hnone rfl]
  | @expression expression hstatic hsome =>
    rw [← expressionAttribute_eq]
    cases hcall : isCall expression with
    | true => simp [Run.static_eq_nil_iff.mp hstatic, hcalls hsome, Option.filter_some, hcall]
    | false =>
      have hfilter : (some expression).filter isCall = none := by simp [Option.filter_some, hcall]
      simp [Run.static_eq_nil_iff.mp hstatic, hcalls hsome, hfilter, hothers hsome hfilter]
  | static hstatic hnone =>
    simp [mt Run.static_eq_nil_iff.mpr hstatic, hcalls hnone, hothers hnone rfl]
  | argument hstatic hsome hcall _ hinjected =>
    rw [← expressionAttribute_eq]
    simp [mt Run.static_eq_nil_iff.mpr hstatic, hcalls hsome, Option.filter_some, hcall, hinjected]
  | unclosed hstatic hsome hcall hclose =>
    have hinjected := (injectArgument?_eq_none_iff hcall run.static).mpr hclose
    rw [← expressionAttribute_interpolated]
    simp [mt Run.static_eq_nil_iff.mpr hstatic, hcalls hsome, Option.filter_some, hcall, hinjected]
  | @interpolated expression hstatic hsome hcall =>
    have hfilter : (some expression).filter isCall = none := by simp [Option.filter_some, hcall]
    rw [← expressionAttribute_interpolated]
    simp [mt Run.static_eq_nil_iff.mpr hstatic, hcalls hsome, hfilter, hothers hsome hfilter]

end Merging

theorem Run.exists_becomes (name : Text) (run : Run) :
    ∃ merged warnings, run.Becomes name merged warnings := by
  obtain ⟨survivor, hsurvives⟩ := exists_survives run.expressions
  by_cases hstatic : run.static = []
  · cases survivor with
    | none => exact ⟨_, _, .dropped hstatic hsurvives⟩
    | some expression => exact ⟨_, _, .expression hstatic hsurvives⟩
  · cases survivor with
    | none => exact ⟨_, _, .static hstatic hsurvives⟩
    | some expression =>
      cases hcall : isCall expression with
      | false => exact ⟨_, _, .interpolated hstatic hsurvives hcall⟩
      | true =>
        by_cases hclose : ')' ∈ expression
        · cases hinjected : injectArgument? expression run.static with
          | none => exact absurd hclose ((injectArgument?_eq_none_iff hcall _).mp hinjected)
          | some injected => exact ⟨_, _, .argument hstatic hsurvives hcall hclose hinjected⟩
        · exact ⟨_, _, .unclosed hstatic hsurvives hcall hclose⟩

/-! ## Static text stands in the result -/

theorem isInfix_expressionAttribute {part expression : Text} (h : part <:+: expression)
    (name : Text) : part <:+: expressionAttribute name expression :=
  h.trans ⟨name ++ ['=', '\x7b'], ['\x7d'], by simp [expressionAttribute]⟩

theorem isInfix_templateLiteral (body : Text) : body <:+: templateLiteral body :=
  ⟨['`'], ['`'], rfl⟩

theorem isInfix_staticAttribute (name classes : Text) :
    classes <:+: staticAttribute name classes := by
  rw [staticAttribute]
  split
  next => exact isInfix_expressionAttribute (isInfix_templateLiteral classes) name
  next =>
    split
    next => exact ⟨name ++ "='".toList, ['\''], rfl⟩
    next => exact ⟨name ++ "=\"".toList, ['"'], rfl⟩

theorem isInfix_interpolated (static expression : Text) :
    static <:+: interpolated static expression :=
  ⟨['`'], ' ' :: (interpolation ++ (expression ++ ['\x7d', '`'])),
    by simp [interpolated, templateLiteral]⟩

/-- No static text is lost, and its order stays. -/
theorem Run.Becomes.static_isInfix {name : Text} {run : Run} {merged : Text}
    {warnings : List Warning} (h : run.Becomes name merged warnings) : run.static <:+: merged := by
  have hbehind {text : Text} (h : run.static <:+: text) : run.static <:+: run.lead ++ text :=
    List.infix_append_of_infix_right h
  cases h with
  | dropped hstatic => exact hstatic ▸ List.infix_refl []
  | expression hstatic => exact hstatic ▸ List.nil_infix
  | static => exact hbehind (isInfix_staticAttribute name run.static)
  | argument _ _ _ _ hinjected =>
    rw [← expressionAttribute_eq]
    exact hbehind (isInfix_expressionAttribute (isInfix_of_injectArgument? hinjected) name)
  | unclosed =>
    rw [← expressionAttribute_interpolated]
    exact hbehind (isInfix_expressionAttribute (isInfix_interpolated _ _) name)
  | interpolated =>
    rw [← expressionAttribute_interpolated]
    exact hbehind (isInfix_expressionAttribute (isInfix_interpolated _ _) name)

/-- The run of a text becomes what the rule says. -/
theorem mergeRun_eq_of_becomes {name : AttributeName} {text : Text} {run : Run}
    (h : run ∈ (runReader name.mergedNames).findAll text) {merged : Text} {warnings : List Warning}
    (hbecomes : run.Becomes name.text merged warnings) :
    mergeRun name run = (merged, warnings) := by
  obtain ⟨start, front, rest, hread⟩ := Reader.exists_read_of_mem_findAll _ h
  obtain ⟨hlead, hrun, -⟩ := (runReader_read?_eq_some_iff name.mergedNames_plain).mp hread
  exact mergeRun_of_becomes hrun hlead.blanks hbecomes

/-- What a run in a text becomes is determined by its static text and by the expression that
survives, the last call or else the first that is not empty; a message goes with it exactly
when that is a call in which no parenthesis closes and there is static text. The static text
stands in the result as one piece. A braced value encloses static text when it is a template
literal, and a call starts with a dotted name and an opening parenthesis. -/
theorem mergeRun_becomes_iff {name : AttributeName} {text : Text} {run : Run}
    (h : run ∈ (runReader name.mergedNames).findAll text) :
    (∀ merged warnings, mergeRun name run = (merged, warnings) ↔
      run.Becomes name.text merged warnings) ∧
    run.static <:+: (mergeRun name run).1 ∧
    (∀ body template, Value.enclosed? (.braced body) = some template ↔
      body.trim = '`' :: (template ++ ['`'])) ∧
    ∀ expression, isCall expression = true ↔
      ∃ c callee blanks rest, expression = c :: (callee ++ (blanks ++ '(' :: rest)) ∧
        startsCallee c = true ∧ (∀ d ∈ callee, continuesCallee d = true) ∧
        ∀ d ∈ blanks, isBlank d = true := by
  obtain ⟨merged, warnings, hbecomes⟩ := run.exists_becomes name.text
  have hmerged := mergeRun_eq_of_becomes h hbecomes
  refine ⟨fun other others => ⟨fun heq => ?_, mergeRun_eq_of_becomes h⟩, ?_,
    fun _ _ => templateBody?_eq_some_iff, fun _ => isCall_eq_true_iff⟩
  · obtain ⟨rfl, rfl⟩ := Prod.mk.inj (hmerged.symm.trans heq)
    exact hbecomes
  · rw [hmerged]
    exact hbecomes.static_isInfix

/-- Of three expressions the last call survives and takes the static texts as its argument. A call
that is not closed is interpolated behind them, with a message, as the first of two expressions is
when none is a call; without static text that stands alone. -/
theorem mergeRun_becomes_of_expressions :
    let class_ := AttributeName.class_.text
    let runOf (first : Value) (more : List Value) : Run :=
      ⟨[' '], ⟨class_, none, first⟩, more.map fun value => ([' '], ⟨class_, none, value⟩)⟩
    let called := runOf (.double " a ".toList) [.braced "f(x)".toList, .braced "`b`".toList,
      .braced ['y'], .single [], .braced "g(z, )".toList]
    let unclosed := runOf (.double ['a']) [.braced "f(x".toList]
    let plain := runOf (.braced ['y']) [.single ['a'], .braced ['z']]
    let alone := runOf (.braced ['y']) [.single []]
    (∀ run ∈ [called, unclosed, plain, alone],
      run ∈ (runReader AttributeName.class_.mergedNames).findAll ("<p".toList ++ run.written)) ∧
      mergeRun .class_ called = (" class=\x7bg(z, `a b`)\x7d".toList, []) ∧
      mergeRun .class_ unclosed =
        (" class=\x7b`a $\x7bf(x\x7d`\x7d".toList, [.unclosedCall "f(x".toList]) ∧
      mergeRun .class_ plain = (" class=\x7b`a $\x7by\x7d`\x7d".toList, []) ∧
      mergeRun .class_ alone = (" class=\x7by\x7d".toList, []) := by
  intro class_ runOf called unclosed plain alone
  have hmem : ∀ run ∈ [called, unclosed, plain, alone],
      run ∈ (runReader AttributeName.class_.mergedNames).findAll ("<p".toList ++ run.written) := by
    decide +kernel
  have hbecomes (run : Run) (hrun : run ∈ [called, unclosed, plain, alone]) (merged : Text)
      (warnings : List Warning) := (mergeRun_becomes_iff (hmem run hrun)).1 merged warnings
  refine ⟨hmem, (hbecomes called (by simp) _ _).mpr ?_, (hbecomes unclosed (by simp) _ _).mpr ?_,
    (hbecomes plain (by simp) _ _).mpr ?_, (hbecomes alone (by simp) _ _).mpr ?_⟩
  · have hsplit : called.expressions = ["f(x)".toList, ['y']] ++ "g(z, )".toList :: [] := by
      decide +kernel
    have hinjected : injectArgument? "g(z, )".toList called.static = some "g(z, `a b`)".toList := by
      decide +kernel
    exact .argument (by decide +kernel) (.call hsplit (by decide +kernel) (by simp))
      (by decide +kernel) (by decide) hinjected
  · have hsplit : unclosed.expressions = [] ++ "f(x".toList :: [] := by decide +kernel
    exact .unclosed (by decide +kernel) (.call hsplit (by decide +kernel) (by simp))
      (by decide +kernel) (by decide)
  · have hcalls : plain.expressions.all (!isCall ·) = true := by decide +kernel
    have hsplit : plain.expressions = [] ++ ['y'] :: [['z']] := by decide +kernel
    exact .interpolated (by decide +kernel)
      (.other (by simpa using hcalls) hsplit (by simp) (by simp)) (by decide +kernel)
  · have hcalls : alone.expressions.all (!isCall ·) = true := by decide +kernel
    have hsplit : alone.expressions = [] ++ ['y'] :: [] := by decide +kernel
    exact .expression (by decide +kernel)
      (.other (by simpa using hcalls) hsplit (by simp) (by simp))

end VariantClasses
