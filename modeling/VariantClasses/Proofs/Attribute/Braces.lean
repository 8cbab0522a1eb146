import Mathlib.Computability.Language
import VariantClasses.Proofs.Attribute.Reading
import VariantClasses.Proofs.Scan.Places

/-! # Braced values

The body of a braced value is a sequence of characters that are no braces and of groups,
each a shallower body between braces. These are the texts whose braces are balanced and nest
no deeper than the limit (`mem_bracedBodies_iff`). An attribute with a braced value is
recognised exactly when its body is one of them, and it then ends with the brace that closes
its first, whatever follows (`braced_recognised_iff`).
-/

namespace VariantClasses

open Computability

/-! ## Bodies -/

/-- One character that is no brace. -/
def braceless : Language Char :=
  {text | ∃ c, (c ≠ '\x7b' ∧ c ≠ '\x7d') ∧ text = [c]}

/-- A brace that opens, a body and the brace that closes it, where the groups of the body
nest one level less. -/
def braceGroups : Nat → Language Char
  | 0 => 0
  | depth + 1 => {['\x7b']} * (braceless + braceGroups depth)∗ * {['\x7d']}

/-- The bodies whose groups nest at most `depth` deep. -/
def bracedBodies (depth : Nat) : Language Char :=
  (braceless + braceGroups depth)∗

theorem mem_braceGroups_succ_iff {depth : Nat} {text : Text} : text ∈ braceGroups (depth + 1) ↔
    ∃ inner ∈ bracedBodies depth, text = '\x7b' :: (inner ++ ['\x7d']) := by
  simp only [braceGroups, Language.mem_mul]
  constructor
  · rintro ⟨_, ⟨_, rfl, inner, hinner, rfl⟩, _, rfl, rfl⟩
    exact ⟨inner, hinner, by simp⟩
  · rintro ⟨inner, hinner, rfl⟩
    exact ⟨_, ⟨_, rfl, inner, hinner, rfl⟩, _, rfl, by simp⟩

theorem append_mem_bracedBodies {depth : Nat} {piece rest : Text}
    (hpiece : piece ∈ braceless + braceGroups depth) (hrest : rest ∈ bracedBodies depth) :
    piece ++ rest ∈ bracedBodies depth := by
  have hmul := Language.append_mem_mul hpiece hrest
  rw [bracedBodies, ← Language.one_add_self_mul_kstar_eq_kstar]
  exact .inr hmul

/-- A repetition keeps what each of its pieces keeps. -/
theorem append_of_mem_kstar {pieces : Language Char} {p : Text → Prop}
    (hpiece : ∀ piece ∈ pieces, ∀ rest, p rest → p (piece ++ rest)) {front rest : Text}
    (hfront : front ∈ pieces∗) (hrest : p rest) : p (front ++ rest) := by
  obtain ⟨parts, rfl, hparts⟩ := Language.mem_kstar.mp hfront
  clear hfront
  induction parts with
  | nil => exact hrest
  | cons part parts ih =>
    rw [List.flatten_cons, List.append_assoc]
    apply hpiece part (hparts part List.mem_cons_self)
    exact ih fun other hother => hparts other (List.mem_cons_of_mem _ hother)

/-! ## Balanced braces -/

section NestsFrom

variable {nesting : Nat} {text : Text}

theorem nestsFrom_open_cons_iff :
    NestsFrom nesting ('\x7b' :: text) ↔ nesting ≤ nestingLimit ∧ NestsFrom (nesting + 1) text :=
  nestsFrom_cons_iff (by simp)

theorem nestsFrom_close_cons_iff : NestsFrom (nesting + 1) ('\x7d' :: text) ↔
    nesting + 1 ≤ nestingLimit ∧ NestsFrom nesting text :=
  nestsFrom_cons_iff (by simp)

theorem nestsFrom_braceless_cons_iff {c : Char} (hc : c ≠ '\x7b' ∧ c ≠ '\x7d') :
    NestsFrom nesting (c :: text) ↔ nesting ≤ nestingLimit ∧ NestsFrom nesting text :=
  nestsFrom_cons_iff (by simp [hc.1, hc.2])

theorem NestsFrom.nesting_le (h : NestsFrom nesting text) : nesting ≤ nestingLimit := by
  simpa using h.opening [] List.nil_prefix

end NestsFrom

theorem NestsFrom.append_braceless {nesting : Nat} {piece rest : Text} (hpiece : piece ∈ braceless)
    (hrest : NestsFrom nesting rest) : NestsFrom nesting (piece ++ rest) := by
  obtain ⟨c, hc, rfl⟩ := hpiece
  exact (nestsFrom_braceless_cons_iff hc).mpr ⟨hrest.nesting_le, hrest⟩

/-- A body leaves as many braces open as there were. -/
theorem NestsFrom.append_body {depth nesting : Nat} {body rest : Text}
    (hdepth : nesting + depth ≤ nestingLimit) (hbody : body ∈ bracedBodies depth)
    (hrest : NestsFrom nesting rest) : NestsFrom nesting (body ++ rest) := by
  induction depth generalizing nesting body rest with
  | zero =>
    refine append_of_mem_kstar (fun piece hpiece rest hrest => ?_) hbody hrest
    exact hrest.append_braceless (hpiece.resolve_right (Language.notMem_zero piece))
  | succ depth ih =>
    refine append_of_mem_kstar (fun piece hpiece rest hrest => ?_) hbody hrest
    rcases hpiece with hpiece | hgroup
    · exact hrest.append_braceless hpiece
    · obtain ⟨inner, hinner, rfl⟩ := mem_braceGroups_succ_iff.mp hgroup
      have hclosed : NestsFrom (nesting + 1) ('\x7d' :: rest) :=
        nestsFrom_close_cons_iff.mpr ⟨by omega, hrest⟩
      have hopened := ih (by omega : nesting + 1 + depth ≤ nestingLimit) hinner hclosed
      rw [List.cons_append, List.append_assoc, List.singleton_append]
      exact nestsFrom_open_cons_iff.mpr ⟨hrest.nesting_le, hopened⟩

/-- The text starts with a body that goes up to the brace that closes the innermost of
`nesting` open ones, or up to the end when none is open. -/
def StartsWithBody (depth nesting : Nat) (text : Text) : Prop :=
  ∃ body after, text = body ++ after ∧ body ∈ bracedBodies depth ∧
    ((nesting = 0 ∧ after = []) ∨
      ∃ outer rest, nesting = outer + 1 ∧ after = '\x7d' :: rest ∧ NestsFrom outer rest)

theorem StartsWithBody.append_piece {depth nesting : Nat} {piece rest : Text}
    (hpiece : piece ∈ braceless + braceGroups depth) (h : StartsWithBody depth nesting rest) :
    StartsWithBody depth nesting (piece ++ rest) := by
  obtain ⟨body, after, rfl, hbody, hafter⟩ := h
  exact ⟨piece ++ body, after, by simp, append_mem_bracedBodies hpiece hbody, hafter⟩

theorem NestsFrom.startsWithBody {depth nesting : Nat} {text : Text} (h : NestsFrom nesting text)
    (hdepth : nesting + depth = nestingLimit) : StartsWithBody depth nesting text := by
  induction hlength : text.length using Nat.strong_induction_on
    generalizing depth nesting text with
  | h length ih =>
    have hnil : [] ∈ bracedBodies depth := Language.nil_mem_kstar _
    cases text with
    | nil => exact ⟨[], [], rfl, hnil, .inl ⟨nestsFrom_nil_iff.mp h, rfl⟩⟩
    | cons c rest =>
      rw [List.length_cons] at hlength
      by_cases hclose : c = '\x7d'
      · subst hclose
        cases nesting with
        | zero => exact absurd h (not_nestsFrom_zero_close rest)
        | succ outer =>
          have hrest := (nestsFrom_close_cons_iff.mp h).2
          exact ⟨[], _, rfl, hnil, .inr ⟨outer, rest, rfl, rfl, hrest⟩⟩
      by_cases hopen : c = '\x7b'
      · -- The group ends where its own body does, and what follows starts with a body again.
        subst hopen
        have hrest := (nestsFrom_open_cons_iff.mp h).2
        have hle := hrest.nesting_le
        obtain _ | depth := depth
        · omega
        obtain ⟨inner, _, rfl, hinner, ⟨hzero, -⟩ | ⟨outer, behind, houter, rfl, hbehind⟩⟩ :=
          ih rest.length (by omega) hrest (by omega : nesting + 1 + depth = nestingLimit) rfl
        · cases hzero
        obtain rfl := Nat.add_right_cancel houter
        rw [List.length_append, List.length_cons] at hlength
        have hgroup := mem_braceGroups_succ_iff.mpr ⟨inner, hinner, rfl⟩
        have hstarts := (ih behind.length (by omega) hbehind hdepth rfl).append_piece (.inr hgroup)
        simpa using hstarts
      · have hc : c ≠ '\x7b' ∧ c ≠ '\x7d' := ⟨hopen, hclose⟩
        have hrest := ((nestsFrom_braceless_cons_iff hc).mp h).2
        have hpiece : [c] ∈ braceless := ⟨c, hc, rfl⟩
        exact (ih rest.length (by omega) hrest hdepth rfl).append_piece (.inl hpiece)

/-- The bodies that a braced value may have are the texts whose braces are balanced and nest
no deeper than the limit. -/
theorem mem_bracedBodies_iff {body : Text} :
    body ∈ bracedBodies nestingLimit ↔ NestsFrom 0 body := by
  constructor
  · intro h
    have hbody := (nestsFrom_nil_iff.mpr rfl).append_body (Nat.zero_add nestingLimit).le h
    rwa [List.append_nil] at hbody
  · intro h
    obtain ⟨inner, after, rfl, hinner, ⟨-, rfl⟩ | ⟨outer, _, hzero, -⟩⟩ :=
      h.startsWithBody (Nat.zero_add nestingLimit)
    · rwa [List.append_nil]
    · cases hzero

/-! ## Recognition -/

/-- The last character of a text closes the brace that its first opens: before it, more
braces have opened than closed, and with it as many. -/
structure IsGroup (text : Text) : Prop where
  opened : ∀ front, front <+: text → front ≠ [] → front ≠ text →
    front.count '\x7d' < front.count '\x7b'
  closed : text.count '\x7b' = text.count '\x7d'

theorem isGroup_written {body : Text} (h : NestsFrom 0 body) :
    IsGroup (Value.braced body).written := by
  constructor
  · intro front hfront hne hlast
    obtain ⟨inner, rfl, hinner⟩ := (List.prefix_cons_iff.mp hfront).resolve_left hne
    rcases List.prefix_concat_iff.mp hinner with rfl | hinner
    · exact absurd rfl hlast
    · have hclosing := h.closing inner hinner
      rw [List.count_cons_of_ne (by decide), List.count_cons_self]
      omega
  · have hclosed := h.closed
    simp [Value.written]
    omega

/-- A braced value is recognised exactly when its body is one of those that characters and
groups in two levels make up, which are the texts whose braces are balanced and nest at most
two deep. Whatever follows the attribute, it is then the first that is found, it ends with
the brace that closes its first, and the scan goes on right behind that brace. -/
theorem braced_recognised_iff (name : AttributeName) (body : Text) :
    let reader := (Pattern.plain name.text).reader
    let found : Occurrence := ⟨[], name.text, none, .braced body⟩
    (reader.FindsAt found.written [] found ↔ NestsFrom 0 body) ∧
    (NestsFrom 0 body ↔ body ∈ bracedBodies 2) ∧
    (NestsFrom 0 body → IsGroup found.attr.value.written ∧
      found.written = name.text ++ '=' :: found.attr.value.written ∧
      ∀ rest, reader.cut true (found.written ++ rest) = .found found :: reader.cut false rest) := by
  intro reader found
  have hread (h : NestsFrom 0 body) (rest : Text) :
      reader.read? true (found.written ++ rest) = some (found, rest) :=
    (Pattern.reader_read?_eq_some_iff name.plain).mpr ⟨.inl ⟨rfl, rfl⟩, ⟨rfl, rfl, h⟩, rfl⟩
  refine ⟨⟨fun h => ?_, fun h => ?_⟩, mem_bracedBodies_iff.symm, fun h => ?_⟩
  · obtain ⟨rest, -, hfound⟩ := h.exists_read
    exact ((Pattern.reader_read?_eq_some_iff name.plain).mp hfound).2.1.2.2
  · have hcut := reader.cut_of_some (hread h [])
    rw [List.append_nil, Reader.cut_nil] at hcut
    exact ⟨[], [], hcut, rfl⟩
  · exact ⟨isGroup_written h, rfl, fun rest => reader.cut_of_some (hread h rest)⟩

end VariantClasses
