import VariantClasses.Expand
import VariantClasses.Proofs.Attribute.Runs
import VariantClasses.Proofs.Expression

/-! # What attributes contribute to a run

A contribution stands in its value, and it is of one kind. Static texts alone are joined
in an attribute between double quotes when they hold no double quote and no interpolation.
-/

namespace VariantClasses

open Text

/-- The text that a value encloses in quotes, or in the backticks of a template literal. -/
def Value.enclosed? : Value → Option Text
  | .double body | .single body => some body
  | .braced body => templateBody? body

/-- The text of what an attribute contributes. -/
def Share.text : Share → Text
  | .literal text => text
  | .call expression => expression
  | .other expression => expression

theorem infix_of_templateBody? {expression body : Text} (h : templateBody? expression = some body) :
    body <:+: expression := by
  have htrim := trim_isInfix expression
  rw [templateBody?_eq_some_iff.mp h] at htrim
  exact (List.infix_cons (List.prefix_append body ['`']).isInfix).trans htrim

theorem Value.share_text_isInfix (value : Value) : value.share.text <:+: value.written := by
  have hbody {body : Text} (c : Char) : body <:+: c :: (body ++ [c]) :=
    List.infix_cons (List.prefix_append body [c]).isInfix
  cases value with
  | double body => exact (trim_isInfix body).trans (hbody '"')
  | single body => exact (trim_isInfix body).trans (hbody '\'')
  | braced body =>
    have hwritten : body <:+: Value.written (.braced body) :=
      List.infix_cons (List.prefix_append body ['\x7d']).isInfix
    refine List.IsInfix.trans ?_ hwritten
    cases htemplate : templateBody? body with
    | some template =>
      simp only [share, htemplate]
      exact (trim_isInfix template).trans (infix_of_templateBody? htemplate)
    | none =>
      simp only [share, htemplate]
      split
      · exact trim_isInfix body
      · exact trim_isInfix body

theorem staticTexts_cons (share : Share) (shares : List Share) :
    staticTexts (share :: shares) = staticTexts [share] ++ staticTexts shares :=
  List.filterMap_append (l := [share])

theorem calls_cons (share : Share) (shares : List Share) :
    calls (share :: shares) = calls [share] ++ calls shares :=
  List.filterMap_append (l := [share])

theorem otherExpressions_cons (share : Share) (shares : List Share) :
    otherExpressions (share :: shares) = otherExpressions [share] ++ otherExpressions shares :=
  List.filterMap_append (l := [share])

/-! ## Runs -/

def Run.shares (run : Run) : List Share :=
  run.attrs.map fun attr => attr.value.share

/-- A run becomes what its attributes contribute to, behind its lead. -/
theorem mergeRun_eq {name : AttributeName} {run : Run} (hrun : run.IsOf name.mergedNames)
    (hlead : ∀ c ∈ run.lead, isBlank c = true) : mergeRun name run =
      match mergeShares name.text run.shares with
      | (some merged, warnings) => (run.lead ++ merged, warnings)
      | (none, warnings) => ([], warnings) := by
  rw [mergeRun, attributeReader_findAll_run name.mergedNames_plain hrun hlead]
  rfl

/-! ## Counting -/

/-- A contribution is of one kind, and an empty one counts nothing. -/
theorem count_share (c : Char) (share : Share) :
    (staticTexts [share]).flatten.count c + (calls [share]).flatten.count c +
      (otherExpressions [share]).flatten.count c = share.text.count c := by
  cases share with
  | literal text => cases text <;> simp [staticTexts, calls, otherExpressions, Share.text]
  | call expression => simp [staticTexts, calls, otherExpressions, Share.text]
  | other expression => cases expression <;> simp [staticTexts, calls, otherExpressions, Share.text]

theorem count_shares (c : Char) (shares : List Share) :
    (staticTexts shares).flatten.count c + (calls shares).flatten.count c +
      (otherExpressions shares).flatten.count c = (shares.flatMap Share.text).count c := by
  induction shares with
  | nil => rfl
  | cons share shares ih =>
    have hshare := count_share c share
    rw [List.flatMap_cons, List.count_append, ← ih, staticTexts_cons, calls_cons,
      otherExpressions_cons]
    simp only [List.flatten_append, List.count_append]
    omega

theorem count_le_of_mem {texts : List Text} {text : Text} (h : text ∈ texts) (c : Char) :
    text.count c ≤ texts.flatten.count c :=
  (List.sublist_flatten_of_mem h).count_le c

/-! ## Static contributions -/

/-- Texts are joined, and texts that are all empty leave nothing. -/
theorem mergeShares_literals (name : Text) (texts : List Text) :
    mergeShares name (texts.map Share.literal) =
      if (texts.filter (!·.isEmpty)).isEmpty then (none, [])
      else (some (staticAttribute name (joinWith [' '] (texts.filter (!·.isEmpty)))), []) := by
  have hstatic : staticTexts (texts.map Share.literal) = texts.filter (!·.isEmpty) := by
    induction texts with
    | nil => rfl
    | cons text texts ih =>
      rw [List.map_cons, staticTexts_cons, ih]
      cases text <;> rfl
  have hcalls : calls (texts.map Share.literal) = [] := by simp [calls]
  have hothers : otherExpressions (texts.map Share.literal) = [] := by simp [otherExpressions]
  simp only [mergeShares, hstatic, hcalls, hothers]
  rfl

theorem staticAttribute_eq_doubleQuoted {name classes : Text} (hquote : '"' ∉ classes)
    (hinterpolation : includes interpolation classes = false) :
    staticAttribute name classes = doubleQuoted name classes := by
  have hcontains : classes.contains '"' = false := by simpa using hquote
  rw [staticAttribute, hcontains, hinterpolation]
  rfl

theorem share_of_quotedBody? {value : Value} {body : Text} (h : value.quotedBody? = some body) :
    value.share = .literal (trim body) := by
  cases value with
  | double inner => rw [← Option.some.inj h]; rfl
  | single inner => rw [← Option.some.inj h]; rfl
  | braced inner => cases h

end VariantClasses
