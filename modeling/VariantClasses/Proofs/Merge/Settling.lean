import VariantClasses.Proofs.Merge.Shares

/-! # Merging settles

Every attribute has its `=`, and a merged run has one for all of its attributes. So each
run that is merged leaves fewer `=` than there were (`count_mergeRun_lt`): merging changes
a text exactly when it holds a run, and merging again and again comes to an end. It need
not end at once, since merging may put a new run together.
-/

namespace VariantClasses

open Text

/-! ## Merged attributes -/

section Merged

variable {name : Text} (hname : '=' ∉ name)

include hname

theorem count_expressionAttribute (expression : Text) :
    (expressionAttribute name expression).count '=' = 1 + expression.count '=' := by
  simp [expressionAttribute, List.count_eq_zero.mpr hname]
  omega

theorem count_staticAttribute (classes : Text) :
    (staticAttribute name classes).count '=' = 1 + classes.count '=' := by
  unfold staticAttribute
  dsimp only
  split
  · rw [count_expressionAttribute hname]
    simp [templateLiteral]
  · split <;> simp [List.count_eq_zero.mpr hname] <;> omega

omit hname in
theorem count_interpolated (static expression : Text) :
    (interpolated static expression).count '=' = static.count '=' + expression.count '=' := by
  simp [interpolated, templateLiteral, interpolation]

omit hname in
theorem count_injectArgument? {call literal injected : Text}
    (h : injectArgument? call literal = some injected) :
    injected.count '=' ≤ call.count '=' + literal.count '=' := by
  obtain ⟨⟨before, after⟩, hsplit, h⟩ := Option.bind_eq_some_iff.mp h
  dsimp only at h
  split at h
  next =>
    obtain rfl := Option.some.inj h
    have hfront : (trimEnd before).count '=' ≤ before.count '=' :=
      (List.reverse_sublist.mp (by simpa [trimEnd] using List.dropWhile_sublist _)).count_le '='
    have hseparator : (argumentSeparator (trimEnd before)).count '=' = 0 := by
      unfold argumentSeparator
      split <;> rfl
    rw [eq_append_of_upToLast? hsplit]
    simp [templateLiteral, hseparator]
    omega
  next => cases h

theorem count_mergeShares {shares : List Share} {merged : Text}
    (h : (mergeShares name shares).1 = some merged) :
    merged.count '=' ≤ 1 + (shares.flatMap Share.text).count '=' := by
  rw [← count_shares]
  have hstatic : (joinWith [' '] (staticTexts shares)).count '=' =
      (staticTexts shares).flatten.count '=' :=
    count_joinWith (by decide) _
  have hcall {call : Text} (hcall : (calls shares).getLast? = some call) :=
    count_le_of_mem (List.mem_of_getLast? hcall) '='
  have hother {expression : Text} (hother : (otherExpressions shares).head? = some expression) :=
    count_le_of_mem (List.mem_of_head? hother) '='
  unfold mergeShares at h
  dsimp only at h
  split at h
  next =>
    obtain ⟨expression, hexpression, rfl⟩ := Option.map_eq_some_iff.mp h
    rw [count_expressionAttribute hname]
    -- Only one expression survives, and the others take their `=` with them.
    rcases Option.or_eq_some_iff.mp hexpression with hlast | ⟨-, hhead⟩
    · have hle := hcall hlast
      omega
    · have hle := hother hhead
      omega
  next =>
    split at h
    next call _ hlast =>
      have hle := hcall hlast
      split at h
      next injected hinjected =>
        obtain rfl := Option.some.inj h
        have hinjected := count_injectArgument? hinjected
        rw [count_expressionAttribute hname]
        omega
      next =>
        obtain rfl := Option.some.inj h
        rw [count_expressionAttribute hname, count_interpolated]
        omega
    next expression _ hhead =>
      obtain rfl := Option.some.inj h
      have hle := hother hhead
      rw [count_expressionAttribute hname, count_interpolated]
      omega
    next =>
      obtain rfl := Option.some.inj h
      rw [count_staticAttribute hname]
      omega

end Merged

/-! ## Merged runs -/

/-- Each attribute has its `=` beside those of what it contributes. -/
theorem count_contributions_le {names : List Text}
    (hnames : ∀ name ∈ names, isAttributeName name = true) {attrs : List (Text × Attribute)}
    (h : ∀ x ∈ attrs, x.2.IsPlainOf names) :
    ((attrs.map fun x => x.2.value.share).flatMap Share.text).count '=' + attrs.length ≤
      (followersWritten attrs).count '=' := by
  induction attrs with
  | nil => simp
  | cons x attrs ih =>
    obtain ⟨hname, hchain, -⟩ := h x List.mem_cons_self
    have hshare := x.2.value.share_text_isInfix.sublist.count_le '='
    have hrest := ih fun y hy => h y (List.mem_cons_of_mem _ hy)
    have hwritten : (followersWritten (x :: attrs)).count '=' =
        x.1.count '=' + (1 + x.2.value.written.count '=') + (followersWritten attrs).count '=' := by
      have hfree : x.2.name.count '=' = 0 :=
        List.count_eq_zero.mpr (not_mem_of_isAttributeName (hnames _ hname) (by decide))
      simp [followersWritten, Attribute.written, hchain, hfree]
      omega
    rw [hwritten, List.map_cons, List.flatMap_cons, List.count_append, List.length_cons]
    omega

section Runs

variable {name : AttributeName} {run : Run} (hrun : run.IsOf name.mergedNames)
  (hlead : ∀ c ∈ run.lead, isBlank c = true)

include hrun hlead

theorem mergeRun_fst : (mergeRun name run).1 =
    (mergeShares name.text (run.attrs.map fun attr => attr.value.share)).1.elim []
      (run.lead ++ ·) := by
  rw [mergeRun_eq hrun hlead, Run.shares]
  cases mergeShares name.text (run.attrs.map fun attr => attr.value.share) with
  | mk merged warnings =>
    cases merged with
    | none => rfl
    | some text => rfl

/-- A merged run has fewer `=` than the run. -/
theorem count_mergeRun_lt : (mergeRun name run).1.count '=' < run.written.count '=' := by
  have hattrs : ∀ x ∈ ([], run.first) :: run.more, x.2.IsPlainOf name.mergedNames := by
    intro x hx
    rcases List.mem_cons.mp hx with rfl | hx
    · exact hrun.first
    · exact (hrun.more x hx).attr
  have hle := count_contributions_le name.mergedNames_plain hattrs
  have hshares : (([], run.first) :: run.more).map (fun x => x.2.value.share) =
      run.attrs.map fun attr => attr.value.share := by
    simp [Run.attrs]
  have hwritten : run.written = run.lead ++ followersWritten (([], run.first) :: run.more) := by
    simp [Run.written, followersWritten]
  -- Two attributes or more have an `=` each, and what they merge to has one beside theirs.
  have hmore : 0 < run.more.length := List.length_pos_iff.mpr hrun.more_ne_nil
  rw [hshares, List.length_cons] at hle
  rw [mergeRun_fst hrun hlead, hwritten, List.count_append]
  cases hmerged : (mergeShares name.text (run.attrs.map fun attr => attr.value.share)).1 with
  | some merged =>
    have hcount := count_mergeShares (not_mem_of_isAttributeName name.plain (by decide)) hmerged
    rw [Option.elim_some, List.count_append]
    omega
  | none =>
    rw [Option.elim_none, List.count_nil]
    omega

end Runs

/-! ## Merged texts -/

/-- What is replaced piece by piece by less has less. -/
theorem count_flatMap_replaced_le (names : List Text) {replacement : Run → Text}
    {pieces : List (Piece Run)} (h : ∀ run, .found run ∈ pieces →
      (replacement run).count '=' < run.written.count '=') :
    (pieces.flatMap (Piece.replaced replacement)).count '=' +
        (pieces.filterMap Piece.found?).length ≤
      (pieces.flatMap (runReader names).pieceWritten).count '=' := by
  induction pieces with
  | nil => simp
  | cons piece pieces ih =>
    have hrest := ih fun run hrun => h run (List.mem_cons_of_mem _ hrun)
    rw [List.flatMap_cons, List.flatMap_cons, List.count_append, List.count_append]
    cases piece with
    | other c =>
      rw [List.filterMap_cons_none rfl]
      exact Nat.add_assoc _ _ _ ▸ Nat.add_le_add_left hrest _
    | found run =>
      have hrun : (replacement run).count '=' < run.written.count '=' :=
        h run List.mem_cons_self
      rw [List.filterMap_cons_some (f := Piece.found?) (a := .found run) (b := run) rfl,
        List.length_cons]
      change (replacement run).count '=' + _ + _ ≤ run.written.count '=' + _
      omega

/-- Each merged run takes at least one `=` away. -/
theorem count_merge_add_length_le (name : AttributeName) (text : Text) :
    (merge name text).text.count '=' +
      ((runReader name.mergedNames).findAll text).length ≤ text.count '=' := by
  have hruns : ∀ run, .found run ∈ (runReader name.mergedNames).cut true text →
      (mergeRun name run).1.count '=' < run.written.count '=' := by
    intro run hmem
    obtain ⟨start, front, rest, hread⟩ := Reader.exists_read_of_found_mem_cut _ hmem
    obtain ⟨hlead, hrun, -⟩ := (runReader_read?_eq_some_iff name.mergedNames_plain).mp hread
    exact count_mergeRun_lt hrun hlead.blanks
  have hle := count_flatMap_replaced_le name.mergedNames hruns
  rwa [Reader.cut_written] at hle

theorem merge_eq_self_iff {name : AttributeName} {text : Text} :
    (merge name text).text = text ↔ ¬HoldsRun name.mergedNames text := by
  rw [← runReader_findAll_eq_nil_iff name.mergedNames_plain]
  constructor
  · intro h
    have hle := count_merge_add_length_le name text
    rw [h] at hle
    exact List.length_eq_zero_iff.mp (by omega)
  · intro h
    exact Reader.replaceAll_eq_self h _

/-- The text after a number of passes over it. -/
def mergePasses (name : AttributeName) : Nat → Text → Text
  | 0, text => text
  | passes + 1, text => mergePasses name passes (merge name text).text

/-- Passes settle: there is no run left after as many as the text has `=`. -/
theorem exists_mergePasses_settled (name : AttributeName) (text : Text) :
    ∃ passes ≤ text.count '=', ¬HoldsRun name.mergedNames (mergePasses name passes text) := by
  induction hcount : text.count '=' using Nat.strongRecOn generalizing text with
  | ind count ih =>
    by_cases hrun : HoldsRun name.mergedNames text
    · have hne : (runReader name.mergedNames).findAll text ≠ [] := by
        rw [Ne, runReader_findAll_eq_nil_iff name.mergedNames_plain]
        exact fun h => h hrun
      have hle := count_merge_add_length_le name text
      have hpos := List.length_pos_iff.mpr hne
      obtain ⟨passes, hpasses, hsettled⟩ :=
        ih ((merge name text).text.count '=') (by omega) (merge name text).text rfl
      exact ⟨passes + 1, by omega, hsettled⟩
    · exact ⟨0, Nat.zero_le _, hrun⟩

/-- Merging a merged text again changes nothing exactly when merging has put no new run
together. Each pass that changes a text takes an `=` away, so that passes settle. -/
theorem merge_merge_eq_iff (name : AttributeName) (text : Text) :
    let once := (merge name text).text
    ((merge name once).text = once ↔ ¬HoldsRun name.mergedNames once) ∧
    ∃ passes ≤ text.count '=',
      (merge name (mergePasses name passes text)).text = mergePasses name passes text := by
  refine ⟨merge_eq_self_iff, ?_⟩
  obtain ⟨passes, hpasses, hsettled⟩ := exists_mergePasses_settled name text
  exact ⟨passes, hpasses, merge_eq_self_iff.mpr hsettled⟩

/-- A run of empty attributes leaves nothing, and the attributes around it become
neighbours, which the second pass merges. -/
theorem merge_merge_ne_of_dropped_run :
    let text := "class=\"\" class=\"\"class=\"x\" class=\"y\"".toList
    (merge .class_ text).text = "class=\"x\" class=\"y\"".toList ∧
      (merge .class_ (merge .class_ text).text).text = "class=\"x y\"".toList ∧
      (merge .class_ (merge .class_ text).text).text ≠ (merge .class_ text).text := by
  decide +kernel

end VariantClasses
