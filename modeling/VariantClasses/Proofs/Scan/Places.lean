import VariantClasses.Proofs.Scan

/-! # Where a scan finds

A place in a text is the text before it. What a scan finds stands behind the pieces before
it, where its reader recognises it (`FindsAt.exists_read`). Conversely a place where the
reader would recognise something is one where the scan finds that, or it lies inside of
something found before (`exists_findsAt`). In the order in which it is found, each thing
ends before the next one starts (`pairwise_findPlaces`).
-/

namespace VariantClasses

/-- A place inside of a text is neither at its start nor at its end. -/
structure Text.IsInside (place text : Text) : Prop where
  ne_nil : place ≠ []
  front : place <+: text
  ne_text : place ≠ text

/-- The character behind a place inside of a text is in the text. -/
theorem Text.IsInside.concat_prefix {place text behind rest : Text} {c : Char}
    (h : IsInside place text) (htext : text ++ behind = place ++ c :: rest) :
    place ++ [c] <+: text := by
  obtain ⟨tail, rfl⟩ := h.front
  rw [List.append_assoc] at htext
  cases tail with
  | nil => exact absurd (List.append_nil place).symm h.ne_text
  | cons d tail =>
    obtain rfl := (List.cons.inj (List.append_cancel_left htext)).1
    exact ⟨tail, by simp⟩

namespace Reader

variable {α : Type} {reader : Reader α}

/-- A scan of the text finds `x` right behind `before`. -/
def FindsAt (reader : Reader α) (text before : Text) (x : α) : Prop :=
  ∃ front back, reader.cut true text = front ++ .found x :: back ∧
    front.flatMap reader.pieceWritten = before

theorem flatMap_pieceWritten_other (reader : Reader α) (text : Text) :
    (text.map Piece.other).flatMap reader.pieceWritten = text := by
  rw [List.flatMap_map]
  exact List.flatMap_singleton' text

/-- Behind the pieces before it, a piece that was found was recognised. -/
theorem exists_read_of_cut_eq {atStart : Bool} {text : Text} {x : α}
    {front back : List (Piece α)} (h : reader.cut atStart text = front ++ .found x :: back) :
    ∃ rest, text = front.flatMap reader.pieceWritten ++ (reader.written x ++ rest) ∧
      reader.read? (atStart && (front.flatMap reader.pieceWritten).isEmpty)
        (reader.written x ++ rest) = some (x, rest) := by
  fun_induction reader.cut atStart text generalizing front with
  | case1 => simp at h
  | case2 atStart c after y rest hread ih =>
    have htext := reader.eq_append hread
    cases front with
    | nil =>
      obtain ⟨hpiece, -⟩ := List.cons.inj h
      obtain rfl : y = x := Piece.found.inj hpiece
      rw [htext] at hread
      exact ⟨rest, htext, by simpa using hread⟩
    | cons piece front =>
      obtain ⟨rfl, hrest⟩ := List.cons.inj h
      obtain ⟨behind, hbehind, hread'⟩ := ih hrest
      have hne : (reader.written y ++ front.flatMap reader.pieceWritten).isEmpty = false := by
        simp [reader.written_ne_nil hread]
      refine ⟨behind, ?_, ?_⟩
      · rw [htext, hbehind, List.flatMap_cons, pieceWritten, List.append_assoc]
      · rwa [List.flatMap_cons, pieceWritten, hne, Bool.and_false]
  | case3 atStart c after hread ih =>
    cases front with
    | nil => cases (List.cons.inj h).1
    | cons piece front =>
      obtain ⟨rfl, hrest⟩ := List.cons.inj h
      obtain ⟨behind, hbehind, hread'⟩ := ih hrest
      refine ⟨behind, ?_, ?_⟩
      · rw [hbehind, List.flatMap_cons, pieceWritten, List.append_assoc, List.singleton_append]
      · simpa [pieceWritten] using hread'

theorem FindsAt.found_mem_cut {text before : Text} {x : α} (h : reader.FindsAt text before x) :
    .found x ∈ reader.cut true text := by
  obtain ⟨front, back, hcut, -⟩ := h
  simp [hcut]

theorem FindsAt.exists_read {text before : Text} {x : α} (h : reader.FindsAt text before x) :
    ∃ rest, text = before ++ (reader.written x ++ rest) ∧
      reader.read? before.isEmpty (reader.written x ++ rest) = some (x, rest) := by
  obtain ⟨front, back, hcut, rfl⟩ := h
  exact exists_read_of_cut_eq hcut

/-- A scan that is at a place where something is recognised finds it there, and one that is
not has found something around the place. -/
theorem exists_cut_eq {atStart : Bool} {before tail rest : Text} {x : α}
    (h : reader.read? (atStart && before.isEmpty) tail = some (x, rest)) :
    ∃ front y back, reader.cut atStart (before ++ tail) = front ++ .found y :: back ∧
      ((front.flatMap reader.pieceWritten = before ∧ y = x) ∨
        ∃ place, before = front.flatMap reader.pieceWritten ++ place ∧
          place.IsInside (reader.written y)) := by
  generalize htext : before ++ tail = text
  fun_induction reader.cut atStart text generalizing before with
  | case1 =>
    obtain ⟨rfl, rfl⟩ := List.append_eq_nil_iff.mp htext
    exact absurd (reader.length_lt h) (Nat.not_lt_zero _)
  | case2 atStart c after y behind hread ih =>
    cases before with
    | nil =>
      -- The scan is at the place.
      obtain rfl : tail = c :: after := htext
      rw [List.isEmpty_nil, Bool.and_true, hread] at h
      obtain ⟨rfl, -⟩ := Prod.mk.inj (Option.some.inj h)
      exact ⟨[], y, _, rfl, .inl ⟨rfl, rfl⟩⟩
    | cons b before =>
      have htext := htext.trans (reader.eq_append hread)
      have hfront : b :: before <+: reader.written y ++ behind := ⟨tail, htext⟩
      have hfound : reader.written y <+: reader.written y ++ behind := List.prefix_append _ _
      rcases Nat.lt_or_ge (b :: before).length (reader.written y).length with hlt | hle
      · refine ⟨[], y, _, rfl, .inr ⟨_, rfl, List.cons_ne_nil _ _, ?_, ?_⟩⟩
        · exact List.prefix_of_prefix_length_le hfront hfound (Nat.le_of_lt hlt)
        · intro heq
          rw [heq] at hlt
          exact Nat.lt_irrefl _ hlt
      · -- The scan goes on behind what it found, and the place is there.
        obtain ⟨inner, hinner⟩ := List.prefix_of_prefix_length_le hfound hfront hle
        rw [← hinner, List.append_assoc] at htext
        have hthere : reader.read? (false && inner.isEmpty) tail = some (x, rest) := by
          simpa using h
        obtain ⟨front, z, back, hcut, hplace⟩ := ih hthere (List.append_cancel_left htext)
        refine ⟨.found y :: front, z, back, by rw [hcut, List.cons_append], ?_⟩
        rw [← hinner, List.flatMap_cons, pieceWritten]
        rcases hplace with ⟨rfl, rfl⟩ | ⟨place, rfl, hinside⟩
        · exact .inl ⟨rfl, rfl⟩
        · exact .inr ⟨place, (List.append_assoc _ _ _).symm, hinside⟩
  | case3 atStart c after hread ih =>
    cases before with
    | nil =>
      obtain rfl : tail = c :: after := htext
      rw [List.isEmpty_nil, Bool.and_true, hread] at h
      cases h
    | cons b before =>
      obtain ⟨rfl, hafter⟩ := List.cons.inj htext
      obtain ⟨front, y, back, hcut, hplace⟩ := ih (by simpa using h) hafter
      refine ⟨.other b :: front, y, back, by rw [hcut, List.cons_append], ?_⟩
      rcases hplace with ⟨hplace, rfl⟩ | ⟨place, hplace, hinside⟩
      · exact .inl ⟨congrArg (b :: ·) hplace, rfl⟩
      · exact .inr ⟨place, congrArg (b :: ·) hplace, hinside⟩

/-- Where something is recognised, a scan finds it, or has found something around the place. -/
theorem exists_findsAt {before tail rest : Text} {x : α}
    (h : reader.read? before.isEmpty tail = some (x, rest)) :
    reader.FindsAt (before ++ tail) before x ∨
      ∃ start y place, reader.FindsAt (before ++ tail) start y ∧ before = start ++ place ∧
        place.IsInside (reader.written y) := by
  have hthere : reader.read? (true && before.isEmpty) tail = some (x, rest) := h
  obtain ⟨front, y, back, hcut, ⟨hplace, rfl⟩ | ⟨place, hplace, hinside⟩⟩ :=
    exists_cut_eq hthere
  · exact .inl ⟨front, back, hcut, hplace⟩
  · exact .inr ⟨_, y, place, ⟨front, back, hcut, rfl⟩, hplace, hinside⟩

/-! ## Places in order -/

/-- What the pieces behind `before` found, each with the place where it stands. -/
def placesFrom (reader : Reader α) (before : Text) : List (Piece α) → List (Text × α)
  | [] => []
  | .other c :: pieces => reader.placesFrom (before ++ [c]) pieces
  | .found x :: pieces => (before, x) :: reader.placesFrom (before ++ reader.written x) pieces

/-- What a scan of the text finds, from left to right, each with the place where it stands. -/
def findPlaces (reader : Reader α) (text : Text) : List (Text × α) :=
  reader.placesFrom [] (reader.cut true text)

theorem map_snd_placesFrom (before : Text) (pieces : List (Piece α)) :
    (reader.placesFrom before pieces).map Prod.snd = pieces.filterMap Piece.found? := by
  induction pieces generalizing before with
  | nil => rfl
  | cons piece pieces ih =>
    cases piece with
    | other c => exact ih _
    | found x => exact congrArg (x :: ·) (ih _)

theorem map_snd_findPlaces (text : Text) :
    (reader.findPlaces text).map Prod.snd = reader.findAll text :=
  map_snd_placesFrom [] _

theorem mem_placesFrom_iff {before place : Text} {pieces : List (Piece α)} {x : α} :
    (place, x) ∈ reader.placesFrom before pieces ↔ ∃ front back,
      pieces = front ++ .found x :: back ∧
        before ++ front.flatMap reader.pieceWritten = place := by
  induction pieces generalizing before with
  | nil => simp [placesFrom]
  | cons piece pieces ih =>
    -- A piece before the found one is in front of it, whatever it is.
    have hlater : (place, x) ∈ reader.placesFrom (before ++ reader.pieceWritten piece) pieces ↔
        ∃ front back, piece :: pieces = (piece :: front) ++ .found x :: back ∧
          before ++ (piece :: front).flatMap reader.pieceWritten = place := by
      simp [ih]
    cases piece with
    | other c =>
      refine hlater.trans ⟨fun ⟨front, back, h⟩ => ⟨_, back, h⟩, ?_⟩
      rintro ⟨front, back, hpieces, hplace⟩
      cases front with
      | nil => cases (List.cons.inj hpieces).1
      | cons piece front =>
        obtain ⟨rfl, -⟩ := List.cons.inj hpieces
        exact ⟨front, back, hpieces, hplace⟩
    | found y =>
      rw [placesFrom, List.mem_cons]
      constructor
      · rintro (hhere | hthere)
        · obtain ⟨rfl, rfl⟩ := Prod.mk.inj hhere
          exact ⟨[], pieces, rfl, List.append_nil _⟩
        · obtain ⟨front, back, h⟩ := hlater.mp hthere
          exact ⟨_, back, h⟩
      · rintro ⟨front, back, hpieces, hplace⟩
        cases front with
        | nil =>
          obtain ⟨hpiece, -⟩ := List.cons.inj hpieces
          obtain rfl := Piece.found.inj hpiece
          rw [List.flatMap_nil, List.append_nil] at hplace
          exact .inl (Prod.ext hplace.symm rfl)
        | cons piece front =>
          obtain ⟨rfl, -⟩ := List.cons.inj hpieces
          exact .inr (hlater.mpr ⟨front, back, hpieces, hplace⟩)

theorem mem_findPlaces_iff {text place : Text} {x : α} :
    (place, x) ∈ reader.findPlaces text ↔ reader.FindsAt text place x := by
  rw [findPlaces, mem_placesFrom_iff]
  rfl

/-- What is found later stands behind all that was found before. -/
theorem pairwise_findPlaces (text : Text) : (reader.findPlaces text).Pairwise
    fun earlier later => earlier.1 ++ reader.written earlier.2 <+: later.1 := by
  rw [findPlaces]
  generalize ([] : Text) = before
  induction reader.cut true text generalizing before with
  | nil => exact List.Pairwise.nil
  | cons piece pieces ih =>
    cases piece with
    | other c => exact ih _
    | found x =>
      refine List.pairwise_cons.mpr ⟨fun later hlater => ?_, ih _⟩
      obtain ⟨front, -, -, hplace⟩ := mem_placesFrom_iff.mp hlater
      exact ⟨_, hplace⟩

end Reader

end VariantClasses
