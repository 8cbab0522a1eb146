import VariantClasses.Gitignore
import VariantClasses.Proofs.Disk.Growth
import VariantClasses.Proofs.Text.Pieces

/-! # Listing an entry twice

An entry that can stand on a line of its own is listed once it was added (`lists_add`). So when
a `.gitignore` was made to list it, making it list the entry again changes nothing
(`ensure_of_lists`). What a call comes to is said once for any way of writing files
(`ensureBy_cases`).
-/

namespace VariantClasses.Gitignore

variable {disk after : Disk} {directory : Path} {entry text : Text}

/-! ## Lines -/

/-- An entry that is read as it is when it stands on a line. -/
def IsLine (entry : Text) : Prop :=
  entry.trim = entry ∧ '\n' ∉ entry

instance (entry : Text) : Decidable (IsLine entry) :=
  inferInstanceAs (Decidable (_ ∧ _))

/-- Every line that a line break ends is a line, whatever follows. -/
theorem lines_append_break (front rest : Text) :
    Text.lines (front ++ '\n' :: rest) =
      (front.splitOn '\n').map Text.withoutReturn ++ Text.lines rest := by
  have hsplit : (front ++ '\n' :: rest).splitOn '\n' = front.splitOn '\n' ++ rest.splitOn '\n' :=
    List.splitOnP_append_cons front rest (beq_self_eq_true '\n')
  have hne : rest.splitOn '\n' ≠ [] := List.splitOn_ne_nil '\n' rest
  simp only [Text.lines, hsplit, List.dropLast_append_of_ne_nil hne,
    List.getLast?_append_of_ne_nil _ hne, List.map_append, List.append_assoc]

theorem lines_concat_break (text : Text) :
    Text.lines (text ++ ['\n']) = (text.splitOn '\n').map Text.withoutReturn := by
  rw [lines_append_break]
  exact List.append_nil _

/-- The text with its last line ended by a line break. -/
def ended (text : Text) : Text :=
  text ++ if text = [] ∨ text.getLast? = some '\n' then [] else ['\n']

theorem add_eq (entry text : Text) : add entry text = ended text ++ (entry ++ ['\n']) := by
  simp [add, ended]

theorem ended_cases (text : Text) : ended text = [] ∨ ∃ front, ended text = front ++ ['\n'] := by
  rw [ended]
  split
  next h =>
    rw [List.append_nil, ← List.getLast?_eq_some_iff]
    exact h
  next => exact .inr ⟨text, rfl⟩

/-- What stands behind ended lines are lines of their own. -/
theorem lines_ended_append (text more : Text) :
    Text.lines (ended text ++ more) = Text.lines (ended text) ++ Text.lines more := by
  rcases ended_cases text with hnil | ⟨front, hfront⟩
  · rw [hnil]
    rfl
  · rw [hfront, lines_concat_break, List.append_assoc, List.singleton_append, lines_append_break]

/-- A text that does not end in a line break ends in a line that none ended. -/
theorem exists_splitOn_eq_concat (hne : text ≠ []) (hlast : text.getLast? ≠ some '\n') :
    ∃ (front : List Text) (last : Text), text.splitOn '\n' = front ++ [last] ∧ last ≠ [] ∧
      last.getLast? = text.getLast? := by
  have hpieces := List.splitOn_ne_nil '\n' text
  have hsplit := (List.dropLast_append_getLast hpieces).symm
  have htext : text = Text.joinWith ['\n'] (text.splitOn '\n') :=
    (List.intercalate_splitOn '\n').symm
  refine ⟨_, _, hsplit, ?_⟩
  rw [hsplit] at htext
  by_cases hfront : (text.splitOn '\n').dropLast = []
  · have hwhole : text = (text.splitOn '\n').getLast hpieces := by
      simpa [hfront, Text.joinWith] using htext
    rw [← hwhole]
    exact ⟨hne, rfl⟩
  · rw [Text.joinWith_concat _ _ hfront] at htext
    have hpiece : (text.splitOn '\n').getLast hpieces ≠ [] := by
      intro hnil
      rw [hnil] at htext
      exact hlast (by rw [htext]; simp)
    refine ⟨hpiece, ?_⟩
    conv_rhs => rw [htext]
    rw [List.getLast?_append_of_ne_nil _ (by simp), List.getLast?_append_of_ne_nil _ hpiece]

/-- Ending the last line takes a carriage return at the end of the text into the line break. -/
theorem lines_ended (text : Text) :
    Text.lines (ended text) = Text.lines text ∨
      ∃ front last, text.getLast? = some '\r' ∧ Text.lines text = front ++ [last ++ ['\r']] ∧
        Text.lines (ended text) = front ++ [last] := by
  by_cases hended : text = [] ∨ text.getLast? = some '\n'
  · rw [ended, if_pos hended, List.append_nil]
    exact .inl rfl
  obtain ⟨hne, hlast⟩ := not_or.mp hended
  obtain ⟨front, last, hsplit, hnil, hgetLast⟩ := exists_splitOn_eq_concat hne hlast
  have hlines : Text.lines text = front.map Text.withoutReturn ++ [last] := by
    simp [Text.lines, hsplit, hnil]
  have hmore : Text.lines (ended text) =
      front.map Text.withoutReturn ++ [last.withoutReturn] := by
    rw [ended, if_neg hended, lines_concat_break, hsplit, List.map_append]
    rfl
  rw [hlines, hmore, Text.withoutReturn]
  split
  next hreturn =>
    obtain ⟨inner, rfl⟩ := List.getLast?_eq_some_iff.mp hreturn
    exact .inr ⟨_, inner, hgetLast ▸ hreturn, rfl, by rw [List.dropLast_concat]⟩
  next => exact .inl rfl

theorem withoutReturn_of_isLine (h : IsLine entry) : entry.withoutReturn = entry := by
  refine if_neg fun hreturn => ?_
  rw [← h.1] at hreturn
  have hblank := Text.not_blank_of_getLast?_trim hreturn
  revert hblank
  decide

/-- What is added is one line behind those that are there. -/
theorem lines_add (h : IsLine entry) (text : Text) :
    Text.lines (add entry text) = Text.lines (ended text) ++ [entry] := by
  have hentry : entry.splitOn '\n' = [entry] := by
    apply List.splitOnP_eq_singleton
    intro c hc
    rw [beq_eq_false_iff_ne]
    rintro rfl
    exact h.2 hc
  rw [add_eq, lines_ended_append, lines_concat_break, hentry, List.map_singleton,
    withoutReturn_of_isLine h]

theorem lists_add (h : IsLine entry) (text : Text) : lists entry (add entry text) = true := by
  rw [lists, List.any_eq_true]
  exact ⟨entry, by simp [lines_add h], by simp [h.1]⟩

theorem lists_nil (entry : Text) : lists entry [] = false :=
  rfl

theorem add_ne_self (entry text : Text) : add entry text ≠ text := by
  intro heq
  have hlength := congrArg List.length heq
  simp only [add, List.length_append, List.length_singleton] at hlength
  omega

/-! ## Files -/

/-- What listing an entry comes to, however files are written: the file cannot be read; the entry
is listed; or the text with the entry is written, which ends well or fails. -/
theorem ensureBy_cases (store : Disk.Store) (disk : Disk) (directory : Path) (entry : Text) :
    (∃ fault, current disk (directory.join fileName) = .error fault ∧
      ensureBy store disk directory entry =
        (disk, .error (.disk (directory.join fileName) fault))) ∨
    (∃ text, current disk (directory.join fileName) = .ok text ∧ lists entry text = true ∧
      ensureBy store disk directory entry = (disk, .ok false)) ∨
    ∃ text after, current disk (directory.join fileName) = .ok text ∧ lists entry text = false ∧
      ((store disk (directory.join fileName) (add entry text).encode = (after, .ok ()) ∧
        ensureBy store disk directory entry = (after, .ok true)) ∨
      ∃ fault, store disk (directory.join fileName) (add entry text).encode =
          (after, .error fault) ∧
        ensureBy store disk directory entry =
          (after, .error (.disk (directory.join fileName) fault))) := by
  rw [ensureBy]
  cases hcurrent : current disk (directory.join fileName) with
  | error fault => exact .inl ⟨fault, rfl, rfl⟩
  | ok text =>
    right
    dsimp only
    cases hlists : lists entry text with
    | true => exact .inl ⟨text, rfl, hlists, rfl⟩
    | false =>
      right
      cases hstore : store disk (directory.join fileName) (add entry text).encode with
      | mk after outcome =>
        refine ⟨text, after, rfl, hlists, ?_⟩
        rw [hstore]
        cases outcome with
        | ok done => exact .inl ⟨rfl, rfl⟩
        | error fault => exact .inr ⟨fault, rfl, rfl⟩

/-- What listing an entry comes to: the file cannot be read, or it does not list the entry and
cannot be written; the entry is listed; or it is added. -/
theorem ensure_cases (disk : Disk) (directory : Path) (entry : Text) :
    (∃ fault, (∀ text, current disk (directory.join fileName) = .ok text →
        lists entry text = false ∧ ∀ written,
          disk.write (directory.join fileName) (add entry text).encode ≠ .ok written) ∧
      ensure disk directory entry = (disk, .error (.disk (directory.join fileName) fault))) ∨
    (∃ text, current disk (directory.join fileName) = .ok text ∧ lists entry text = true ∧
      ensure disk directory entry = (disk, .ok false)) ∨
    ∃ text after, current disk (directory.join fileName) = .ok text ∧ lists entry text = false ∧
      disk.write (directory.join fileName) (add entry text).encode = .ok after ∧
      ensure disk directory entry = (after, .ok true) := by
  rcases ensureBy_cases Disk.store disk directory entry with ⟨fault, hcurrent, hcase⟩ | hlisted |
    ⟨text, after, hcurrent, hlists, ⟨hstore, hcase⟩ | ⟨fault, hstore, hcase⟩⟩
  · exact .inl ⟨fault, by simp [hcurrent], hcase⟩
  · exact .inr (.inl hlisted)
  · exact .inr (.inr ⟨text, after, hcurrent, hlists, Disk.isStore_store.written hstore, hcase⟩)
  · obtain ⟨rfl, hwrite⟩ := Disk.store_eq_error_iff.mp hstore
    refine .inl ⟨fault, fun other hother => ?_, hcase⟩
    obtain rfl := Except.ok.inj (hcurrent.symm.trans hother)
    exact ⟨hlists, by simp [hwrite]⟩

/-- However files are written, no other file changes. -/
theorem changes_ensureBy {store : Disk.Store} (hstore : Disk.IsStore store) (disk : Disk)
    (directory : Path) (entry : Text) : disk.Changes (ensureBy store disk directory entry).1 ∅
      {disk.place (directory.join fileName)} := by
  have hchanges (text : Text) :=
    hstore.changes disk (directory.join fileName) (add entry text).encode
  rcases ensureBy_cases store disk directory entry with ⟨_, -, hcase⟩ | ⟨_, -, -, hcase⟩ |
    ⟨text, after, -, -, ⟨hwritten, hcase⟩ | ⟨_, hfailed, hcase⟩⟩ <;> rw [hcase]
  · exact .refl disk _ _
  · exact .refl disk _ _
  · simpa [hwritten] using hchanges text
  · simpa [hfailed] using hchanges text

theorem changes_ensure (disk : Disk) (directory : Path) (entry : Text) :
    disk.Changes (ensure disk directory entry).1 ∅ {disk.place (directory.join fileName)} :=
  changes_ensureBy Disk.isStore_store disk directory entry

/-- Listing an entry takes nothing away. -/
theorem grows_ensure (disk : Disk) (directory : Path) (entry : Text) :
    disk.Grows (ensure disk directory entry).1 := by
  rcases ensure_cases disk directory entry with
    ⟨_, -, hensure⟩ | ⟨_, -, -, hensure⟩ | ⟨_, _, -, -, hwrite, hensure⟩ <;> rw [hensure]
  · exact .refl disk
  · exact .refl disk
  · exact Disk.grows_of_write hwrite

theorem isTree_ensure (h : disk.IsTree) (directory : Path) (entry : Text) :
    (ensure disk directory entry).1.IsTree := by
  rcases ensure_cases disk directory entry with
    ⟨_, -, hensure⟩ | ⟨_, -, -, hensure⟩ | ⟨_, _, -, -, hwrite, hensure⟩ <;> rw [hensure]
  · exact h
  · exact h
  · exact h.write hwrite

theorem readText_eq_ok_iff {path : Path} :
    disk.readText path = .ok text ↔
      ∃ bytes, disk.read path = .ok bytes ∧ Text.decode? bytes = some text := by
  rw [Disk.readText, bind_eq_ok_iff]
  apply exists_congr
  intro bytes
  apply and_congr_right
  intro _
  cases Text.decode? bytes <;> simp

theorem readText_of_read_encode {path : Path} (h : disk.read path = .ok text.encode) :
    disk.readText path = .ok text :=
  readText_eq_ok_iff.mpr ⟨_, h, Text.decode?_encode text⟩

theorem current_of_readText {path : Path} (h : disk.readText path = .ok text) :
    current disk path = .ok text := by
  rw [current, h]

/-- A text that lists something was read. -/
theorem readText_of_current {path : Path} (h : current disk path = .ok text)
    (hlists : lists entry text = true) : disk.readText path = .ok text := by
  rw [current] at h
  split at h
  next =>
    cases h
    rw [lists_nil] at hlists
    cases hlists
  next => exact h

theorem ensureBy_of_lists (store : Disk.Store)
    (hread : disk.readText (directory.join fileName) = .ok text)
    (hlists : lists entry text = true) :
    ensureBy store disk directory entry = (disk, .ok false) := by
  rw [ensureBy, current_of_readText hread]
  exact if_pos hlists

theorem ensure_of_lists (hread : disk.readText (directory.join fileName) = .ok text)
    (hlists : lists entry text = true) : ensure disk directory entry = (disk, .ok false) :=
  ensureBy_of_lists Disk.store hread hlists

/-- An entry that is not listed is added where that can be written. -/
theorem ensure_of_not_lists (hcurrent : current disk (directory.join fileName) = .ok text)
    (hlists : lists entry text = false)
    (hwrite : disk.write (directory.join fileName) (add entry text).encode = .ok after) :
    ensure disk directory entry = (after, .ok true) := by
  rw [ensure, ensureBy, hcurrent]
  dsimp only
  rw [hlists, if_neg Bool.false_ne_true, Disk.store_eq_ok_iff.mpr hwrite]

/-- Nothing but a text is at a location, which can be written there otherwise. -/
structure IsFree (disk : Disk) (location : Location) : Prop where
  not_directory : disk.entry? location ≠ some .directory
  decodes (bytes : ByteArray) (hfile : disk.file? location = some bytes) :
    ∃ text, Text.decode? bytes = some text

theorem isFree_iff {location : Location} : IsFree disk location ↔
    disk.entry? location ≠ some .directory ∧
      ∀ bytes, disk.file? location = some bytes → ∃ text, Text.decode? bytes = some text :=
  ⟨fun h => ⟨h.1, h.2⟩, fun h => ⟨h.1, h.2⟩⟩

theorem exists_current_iff {path : Path} (hname : Disk.NamesFile path)
    (hopen : disk.Open (disk.way path)) :
    (∃ text, current disk path = .ok text) ↔ IsFree disk (disk.place path) := by
  have hread := Disk.read_of_open hname hopen
  cases hentry : disk.entry? (disk.place path) with
  | none =>
    rw [hentry] at hread
    have hcurrent : current disk path = .ok [] := by
      rw [current, Disk.readText, hread]
      rfl
    simp [hcurrent, isFree_iff, hentry, Disk.file?]
  | some entry =>
    rw [hentry] at hread
    cases entry with
    | directory =>
      have hcurrent : current disk path = .error .isDirectory := by
        rw [current, Disk.readText, hread]
        rfl
      simp [hcurrent, isFree_iff, hentry]
    | file bytes =>
      cases hdecode : Text.decode? bytes with
      | none =>
        have hcurrent : current disk path = .error .notText := by
          simp [current, Disk.readText, hread, Except.bind, hdecode]
        simp [hcurrent, isFree_iff, Disk.file?, hentry, hdecode]
      | some text =>
        have hcurrent : current disk path = .ok text := by
          simp [current, Disk.readText, hread, Except.bind, hdecode]
        simp [hcurrent, isFree_iff, Disk.file?, hentry, hdecode]

/-- At the end of an open way a `.gitignore` can be made to list an entry exactly when nothing but
a text is there. -/
theorem ensure_snd_eq_ok_iff (hname : Disk.NamesFile (directory.join fileName))
    (hopen : disk.Open (disk.way (directory.join fileName))) :
    (∃ changed, (ensure disk directory entry).2 = .ok changed) ↔
      IsFree disk (disk.place (directory.join fileName)) := by
  rw [← exists_current_iff hname hopen]
  rcases ensure_cases disk directory entry with
    ⟨_, hnone, hensure⟩ | ⟨text, hcurrent, -, hensure⟩ | ⟨text, _, hcurrent, -, -, hensure⟩ <;>
    rw [hensure]
  · refine iff_of_false (by simp) ?_
    rintro ⟨text, hcurrent⟩
    have hfree := (exists_current_iff hname hopen).mp ⟨text, hcurrent⟩
    exact (hnone text hcurrent).2 _
      (Disk.write_eq_ok_iff.mpr ⟨hname, hopen, hfree.not_directory, rfl⟩)
  · exact iff_of_true ⟨_, rfl⟩ ⟨text, hcurrent⟩
  · exact iff_of_true ⟨_, rfl⟩ ⟨text, hcurrent⟩

/-- An entry that was made to be listed is listed. -/
theorem exists_readText_of_ensure (h : IsLine entry) {changed : Bool}
    (hensure : ensure disk directory entry = (after, .ok changed)) :
    ∃ text, after.readText (directory.join fileName) = .ok text ∧ lists entry text = true := by
  rcases ensure_cases disk directory entry with
    ⟨_, -, hcase⟩ | ⟨text, hcurrent, hlists, hcase⟩ | ⟨text, _, -, -, hwrite, hcase⟩ <;>
    rw [hcase] at hensure <;> cases hensure
  · exact ⟨text, readText_of_current hcurrent hlists, hlists⟩
  · exact ⟨add entry text, readText_of_read_encode (Disk.read_of_write hwrite), lists_add h text⟩

end VariantClasses.Gitignore
