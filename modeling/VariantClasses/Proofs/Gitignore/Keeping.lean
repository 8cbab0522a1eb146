import VariantClasses.Proofs.Gitignore

/-! # What is in a `.gitignore` stays

A call that ends well changes nothing, or it adds one line behind those that are there; one that
fails half-way may leave a front of the new text (`conservative`). So after any calls that
end well, in any directories, every text on the disk still starts with its lines, and each call
made again finds its entry listed (`ensure_conservative_and_lasting`).
-/

namespace VariantClasses.Gitignore

variable {store : Disk.Store} {disk before between after : Disk} {path directory : Path}
  {entry text longer longest : Text} {calls : List (Path × Text)}

/-- The text of a file, where a file that is missing is read as empty. -/
def Holds (disk : Disk) (path : Path) (text : Text) : Prop :=
  disk.readText path = .ok text ∨ disk.readText path = .error .missing ∧ text = []

/-- A line of a text, blanks around it aside, is the entry or a slash and the entry. -/
def IsListed (entry text : Text) : Prop :=
  ∃ line ∈ Text.lines text, line.trim = entry ∨ line.trim = '/' :: entry

theorem lists_eq_true_iff : lists entry text = true ↔ IsListed entry text := by
  simp [lists, IsListed]

theorem lists_eq_false_iff : lists entry text = false ↔ ¬IsListed entry text := by
  rw [← lists_eq_true_iff, Bool.not_eq_true]

theorem current_eq_ok_iff : current disk path = .ok text ↔ Holds disk path text := by
  rw [current, Holds]
  cases disk.readText path with
  | ok found => simp
  | error fault => cases fault <;> simp [eq_comm]

/-! ## One call -/

/-- What a call answers, and what it leaves, when files are written in some way. -/
structure Conservative (store : Disk.Store) (disk : Disk) (directory : Path) (entry : Text) :
    Prop where
  /-- Nothing is to be done exactly when the entry is listed. -/
  skips_iff : (ensureBy store disk directory entry).2 = .ok false ↔
    ∃ text, Holds disk (directory.join fileName) text ∧ IsListed entry text
  /-- A call that answers that there was nothing to be done has done nothing. -/
  skipped (h : (ensureBy store disk directory entry).2 = .ok false) :
    (ensureBy store disk directory entry).1 = disk
  /-- The entry is added on a line of its own, behind what is there. -/
  added (h : (ensureBy store disk directory entry).2 = .ok true) :
    ∃ text, Holds disk (directory.join fileName) text ∧
      (ensureBy store disk directory entry).1.read (directory.join fileName) =
        .ok (text ++ (if text = [] ∨ text.getLast? = some '\n' then [] else ['\n']) ++ entry ++
          ['\n'] : Text).encode
  /-- A call that fails changes nothing, unless it came to add the entry: then a front of the new
  text may be left. -/
  failed (failure : Failure) (h : (ensureBy store disk directory entry).2 = .error failure) :
    (ensureBy store disk directory entry).1 = disk ∨
      ∃ text front rest, Holds disk (directory.join fileName) text ∧ ¬IsListed entry text ∧
        (text ++ (if text = [] ∨ text.getLast? = some '\n' then [] else ['\n']) ++ entry ++
          ['\n'] : Text).encode = front ++ rest ∧
        (ensureBy store disk directory entry).1.read (directory.join fileName) = .ok front
  /-- Where the file cannot be read, or the disk shows that it cannot be written, nothing
  changes. -/
  refused (h : (∀ text, ¬Holds disk (directory.join fileName) text) ∨
      ∀ bytes written, disk.write (directory.join fileName) bytes ≠ .ok written) :
    (ensureBy store disk directory entry).1 = disk
  /-- No other file changes. -/
  others : disk.Changes (ensureBy store disk directory entry).1 ∅
    {disk.place (directory.join fileName)}

theorem ensureBy_snd_eq_ok_false_iff :
    (ensureBy store disk directory entry).2 = .ok false ↔
      ∃ text, Holds disk (directory.join fileName) text ∧ IsListed entry text := by
  simp only [← current_eq_ok_iff, ← lists_eq_true_iff]
  rcases ensureBy_cases store disk directory entry with ⟨_, hcurrent, hcall⟩ |
    ⟨text, hcurrent, hlists, hcall⟩ | ⟨text, _, hcurrent, hlists, ⟨-, hcall⟩ | ⟨_, -, hcall⟩⟩
  · simp [hcall, hcurrent]
  · simp [hcall, hcurrent, hlists]
  · simp [hcall, hcurrent, hlists]
  · simp [hcall, hcurrent, hlists]

/-- However files are written, a call keeps what is there. -/
theorem conservative (hstore : Disk.IsStore store) (disk : Disk) (directory : Path)
    (entry : Text) : Conservative store disk directory entry := by
  have hskips : (ensureBy store disk directory entry).2 = .ok false ↔
      ∃ text, Holds disk (directory.join fileName) text ∧ IsListed entry text :=
    ensureBy_snd_eq_ok_false_iff
  have hothers := changes_ensureBy hstore disk directory entry
  have hadd (text : Text) : add entry text = text ++
      (if text = [] ∨ text.getLast? = some '\n' then [] else ['\n']) ++ entry ++ ['\n'] := by
    simp [add]
  rcases ensureBy_cases store disk directory entry with ⟨_, -, hcall⟩ | ⟨text, -, -, hcall⟩ |
    ⟨text, after, hcurrent, hlists, hcalls⟩
  · exact ⟨hskips, by simp [hcall], by simp [hcall], by simp [hcall], by simp [hcall], hothers⟩
  · exact ⟨hskips, by simp [hcall], by simp [hcall], by simp [hcall], by simp [hcall], hothers⟩
  have hholds := current_eq_ok_iff.mp hcurrent
  rcases hcalls with ⟨hwritten, hcall⟩ | ⟨_, hfailed, hcall⟩
  · have hwrite := hstore.written hwritten
    refine ⟨hskips, by simp [hcall], fun _ => ⟨text, hholds, ?_⟩, by simp [hcall], ?_, hothers⟩
    · rw [hcall, ← hadd]
      exact Disk.read_of_write hwrite
    · rintro (hunread | hrefused)
      · exact absurd hholds (hunread text)
      · exact absurd hwrite (hrefused _ after)
  · refine ⟨hskips, by simp [hcall], by simp [hcall], fun _ _ => ?_, ?_, hothers⟩
    · rw [hcall]
      rcases hstore.failed hfailed with hsame | ⟨front, rest, hbytes, hwrite⟩
      · exact .inl hsame
      · exact .inr ⟨text, front, rest, hholds, lists_eq_false_iff.mp hlists, hadd text ▸ hbytes,
          Disk.read_of_write hwrite⟩
    · rw [hcall]
      rintro (hunread | hrefused)
      · exact absurd hholds (hunread text)
      · -- A front of the bytes could be written no more than all of them.
        refine (hstore.failed hfailed).resolve_right ?_
        rintro ⟨front, -, -, hwrite⟩
        exact hrefused front after hwrite

/-! ## Texts that go on -/

/-- A text is the same as before, or it goes on behind the ended lines. -/
def GoesOn (text longer : Text) : Prop :=
  longer = text ∨ ended text <+: longer

theorem prefix_ended (text : Text) : text <+: ended text :=
  List.prefix_append _ _

theorem GoesOn.starts (h : GoesOn text longer) : text <+: longer := by
  rcases h with rfl | h
  · exact List.prefix_rfl
  · exact (prefix_ended text).trans h

theorem GoesOn.trans (h : GoesOn text longer) (hnext : GoesOn longer longest) :
    GoesOn text longest := by
  rcases hnext with rfl | hnext
  · exact h
  right
  rcases h with rfl | h
  · exact hnext
  · exact h.trans ((prefix_ended longer).trans hnext)

/-- A text starts with another one, and its lines start with those of the other, where a carriage
return at the very end of the other may now belong to a line break. -/
structure Continues (text longer : Text) : Prop where
  starts : text <+: longer
  lines : Text.lines text <+: Text.lines longer ∨
    ∃ front last, text.getLast? = some '\r' ∧ Text.lines text = front ++ [last ++ ['\r']] ∧
      front ++ [last] <+: Text.lines longer

theorem GoesOn.continues (h : GoesOn text longer) : Continues text longer := by
  refine ⟨h.starts, ?_⟩
  rcases h with rfl | ⟨more, rfl⟩
  · exact .inl List.prefix_rfl
  rw [lines_ended_append]
  rcases lines_ended text with hsame | ⟨front, last, hlast, hlines, hended⟩
  · exact .inl (hsame ▸ List.prefix_append _ _)
  · exact .inr ⟨front, last, hlast, hlines, hended ▸ List.prefix_append _ _⟩

/-- A line that is listed stays so, since a carriage return is a blank. -/
theorem IsListed.of_continues (h : IsListed entry text) (hmore : Continues text longer) :
    IsListed entry longer := by
  obtain ⟨line, hline, hentry⟩ := h
  rcases hmore.lines with hlines | ⟨front, last, -, hlines, hlonger⟩
  · exact ⟨line, hlines.subset hline, hentry⟩
  rw [hlines, List.mem_append, List.mem_singleton] at hline
  rcases hline with hfront | rfl
  · exact ⟨line, hlonger.subset (List.mem_append_left _ hfront), hentry⟩
  · rw [Text.trim_concat (by decide)] at hentry
    exact ⟨last, hlonger.subset (by simp), hentry⟩

/-! ## Calls one after the other -/

/-- Calls that end well, one after the other, each with a directory and an entry, and with files
written in any way. -/
inductive Calls : Disk → List (Path × Text) → Disk → Prop
  | none (disk : Disk) : Calls disk [] disk
  | call {store : Disk.Store} {before between after : Disk} {directory : Path} {entry : Text}
    {changed : Bool} {calls : List (Path × Text)} (hstore : Disk.IsStore store)
    (first : ensureBy store before directory entry = (between, .ok changed))
    (more : Calls between calls after) : Calls before ((directory, entry) :: calls) after

/-- A call that ends well does so whichever way files are written. -/
theorem ensure_of_ensureBy (hstore : Disk.IsStore store) {changed : Bool}
    (h : ensureBy store before directory entry = (after, .ok changed)) :
    ensure before directory entry = (after, .ok changed) := by
  rcases ensureBy_cases store before directory entry with ⟨_, -, hcall⟩ |
    ⟨text, hcurrent, hlists, hcall⟩ | ⟨text, _, hcurrent, hlists, ⟨hwritten, hcall⟩ |
      ⟨_, -, hcall⟩⟩ <;> rw [hcall] at h <;> cases h
  · exact ensure_of_lists (readText_of_current hcurrent hlists) hlists
  · exact ensure_of_not_lists hcurrent hlists (hstore.written hwritten)

/-- Every text goes on. -/
def Extends (before after : Disk) : Prop :=
  ∀ path text, before.readText path = .ok text →
    ∃ longer, after.readText path = .ok longer ∧ GoesOn text longer

theorem Extends.refl (disk : Disk) : Extends disk disk :=
  fun _ text htext => ⟨text, htext, .inl rfl⟩

theorem Extends.trans (h : Extends before between) (hnext : Extends between after) :
    Extends before after := by
  intro path text htext
  obtain ⟨longer, hlonger, hgoes⟩ := h path text htext
  obtain ⟨longest, hlongest, hmore⟩ := hnext path longer hlonger
  exact ⟨longest, hlongest, hgoes.trans hmore⟩

theorem goesOn_add (entry text : Text) : GoesOn text (add entry text) := by
  rw [add_eq]
  exact .inr (List.prefix_append _ _)

/-- Adding an entry extends the file, by whatever path that is read, and leaves all others. -/
theorem extends_of_write (hcurrent : current disk path = .ok text)
    (hwrite : disk.write path (add entry text).encode = .ok after) : Extends disk after := by
  have hchanges := Disk.changes_of_write hwrite
  obtain ⟨hname, hway, -, -⟩ := Disk.write_eq_ok_iff.mp hwrite
  intro other found hfound
  obtain ⟨bytes, hread, hdecode⟩ := readText_eq_ok_iff.mp hfound
  by_cases hplace : disk.place other = disk.place path
  · -- The file is the one that is written, so what was found there is what was added to.
    obtain ⟨hslash, hopen, hfile⟩ := Disk.read_eq_ok_iff.mp hread
    have hpath : disk.readText path = .ok found := readText_eq_ok_iff.mpr
      ⟨bytes, Disk.read_eq_ok_iff.mpr ⟨hname.1, hway, hplace ▸ hfile⟩, hdecode⟩
    obtain rfl := Except.ok.inj (hcurrent.symm.trans (current_of_readText hpath))
    obtain ⟨-, -, hwritten⟩ := Disk.read_eq_ok_iff.mp (Disk.read_of_write hwrite)
    refine ⟨add entry text, readText_of_read_encode (Disk.read_eq_ok_iff.mpr ⟨hslash, ?_, ?_⟩),
      goesOn_add entry text⟩
    · rw [hchanges.way_eq]
      exact hchanges.open_kept hopen
    · rwa [hchanges.place_eq, hplace, ← hchanges.place_eq]
  · exact ⟨found, readText_eq_ok_iff.mpr ⟨bytes, hchanges.read hread hplace, hdecode⟩, .inl rfl⟩

/-- A call extends every text. -/
theorem extends_ensure {changed : Bool}
    (hensure : ensure before directory entry = (after, .ok changed)) : Extends before after := by
  rcases ensure_cases before directory entry with
    ⟨_, -, hcase⟩ | ⟨_, -, -, hcase⟩ | ⟨_, _, hcurrent, -, hwrite, hcase⟩ <;>
    rw [hcase] at hensure <;> cases hensure
  · exact .refl _
  · exact extends_of_write hcurrent hwrite

theorem Calls.extends (h : Calls before calls after) : Extends before after := by
  induction h with
  | none disk => exact .refl disk
  | call hstore first more ih => exact (extends_ensure (ensure_of_ensureBy hstore first)).trans ih

/-- Whatever calls follow, an entry that a call was made for is listed. -/
theorem Calls.listed (h : Calls before calls after) (hlines : ∀ call ∈ calls, IsLine call.2) :
    ∀ call ∈ calls, ∃ text, after.readText (call.1.join fileName) = .ok text ∧
      IsListed call.2 text := by
  induction h with
  | none disk => simp
  | call hstore first more ih =>
    rw [List.forall_mem_cons] at hlines
    refine List.forall_mem_cons.mpr ⟨?_, ih hlines.2⟩
    obtain ⟨text, htext, hlists⟩ :=
      exists_readText_of_ensure hlines.1 (ensure_of_ensureBy hstore first)
    obtain ⟨longer, hlonger, hgoes⟩ := more.extends _ text htext
    exact ⟨longer, hlonger, (lists_eq_true_iff.mp hlists).of_continues hgoes.continues⟩

/-- What calls leave. -/
structure Lasting (before : Disk) (calls : List (Path × Text)) (after : Disk) : Prop where
  /-- Every entry is listed. -/
  listed : ∀ call ∈ calls, ∃ text, after.readText (call.1.join fileName) = .ok text ∧
    IsListed call.2 text
  /-- Every text continues what it was. -/
  extended (path : Path) (text : Text) (h : before.readText path = .ok text) :
    ∃ longer, after.readText path = .ok longer ∧ Continues text longer
  /-- Each call made again changes nothing, however files are written. -/
  repeated : ∀ call ∈ calls, ∀ store, ensureBy store after call.1 call.2 = (after, .ok false)

/-- A call says rightly whether it added the entry, and takes nothing away unless a write fails that
was begun. After any calls that end well their entries are listed, the lines that were there before
are there in order, but for a carriage return at the end of a text that now belongs to a line break,
and none of the calls has anything left to do. -/
theorem ensure_conservative_and_lasting :
    (∀ store, Disk.IsStore store → ∀ disk directory entry,
        Conservative store disk directory entry) ∧
      ∀ before calls after, Calls before calls after → (∀ call ∈ calls, IsLine call.2) →
        Lasting before calls after := by
  refine ⟨fun store hstore => conservative hstore, ?_⟩
  intro before calls after hcalls hlines
  have hlisted := hcalls.listed hlines
  refine ⟨hlisted, fun path text htext => ?_, fun call hcall store => ?_⟩
  · obtain ⟨longer, hlonger, hgoes⟩ := hcalls.extends path text htext
    exact ⟨longer, hlonger, hgoes.continues⟩
  · obtain ⟨text, htext, hentry⟩ := hlisted call hcall
    exact ensureBy_of_lists store htext (lists_eq_true_iff.mpr hentry)

/-- Writes on a device without room, which shows when the file is emptied already. -/
def fullStore : Disk.Store := fun disk path _ =>
  match disk.write path ByteArray.empty with
  | .error fault => (disk, .error fault)
  | .ok emptied => (emptied, .error .full)

theorem isStore_fullStore : Disk.IsStore fullStore where
  written {disk after path bytes} h := by
    cases hwrite : disk.write path ByteArray.empty <;> simp [fullStore, hwrite] at h
  failed {disk after path bytes fault} h := by
    cases hwrite : disk.write path ByteArray.empty with
    | error fault =>
      simp only [fullStore, hwrite, Prod.mk.injEq] at h
      exact .inl h.1.symm
    | ok emptied =>
      simp only [fullStore, hwrite, Prod.mk.injEq] at h
      exact .inr ⟨ByteArray.empty, bytes, ByteArray.empty_append.symm, h.1 ▸ hwrite⟩

/-- A file without a line break at its end, which lists the first entry with a slash, is added to by
two spellings of its directory. The empty entry is listed by an empty line. On a device without room
the file is left empty. -/
theorem ensure_lasting_of_respelled_directory :
    let held : Text := "node_modules\r\n/out.html".toList
    let before := ((Disk.mk ∅ []).put ["src".toList] .directory).put [".gitignore".toList]
      (.file held.encode)
    let calls := [(Path.ofString ".", "out.html".toList),
      (Path.ofString "src/..", "classes.html".toList), (Path.ofString ".", [])]
    (∀ call ∈ calls, IsLine call.2) ∧ ∃ after, Calls before calls after ∧
      Lasting before calls after ∧
      after.readText (Path.ofString ".gitignore") =
        .ok (held ++ "\nclasses.html\n\n".toList) ∧
      Conservative fullStore after (Path.ofString ".") "x".toList := by
  intro held before calls
  have hlines : ∀ call ∈ calls, IsLine call.2 := by decide
  let first := ensure before (Path.ofString ".") "out.html".toList
  let second := ensure first.1 (Path.ofString "src/..") "classes.html".toList
  let third := ensure second.1 (Path.ofString ".") []
  have hfirst : first.2 = .ok false := by decide +kernel
  have hsecond : second.2 = .ok true := by decide +kernel
  have hthird : third.2 = .ok true := by decide +kernel
  have hcalls : Calls before calls third.1 :=
    .call Disk.isStore_store (Prod.ext rfl hfirst) (.call Disk.isStore_store (Prod.ext rfl hsecond)
      (.call Disk.isStore_store (Prod.ext rfl hthird) (.none third.1)))
  exact ⟨hlines, _, hcalls, ensure_conservative_and_lasting.2 _ _ _ hcalls hlines,
    by decide +kernel, ensure_conservative_and_lasting.1 _ isStore_fullStore _ _ _⟩

/-- On a device without room a call fails and leaves the file empty. And a line that ends in a
carriage return, at the end of a text, is no line any more once an entry was added. -/
theorem ensure_not_keeping :
    let path := Path.ofString ".gitignore"
    let holding (text : Text) : Disk := (Disk.mk ∅ []).put [".gitignore".toList] (.file text.encode)
    let before := holding "a\r".toList
    let after := (ensure before (Path.ofString ".") "x".toList).1
    IsLine "x".toList ∧ (Disk.IsStore fullStore ∧
      ensureBy fullStore before (Path.ofString ".") "x".toList =
        (holding [], .error (.disk (Path.ofString "./.gitignore") .full)) ∧
      before.readText path = .ok "a\r".toList ∧ (holding []).readText path = .ok []) ∧
    (ensure before (Path.ofString ".") "x".toList).2 = .ok true ∧
      ∃ text longer, before.readText path = .ok text ∧ after.readText path = .ok longer ∧
        "a\r".toList ∈ Text.lines text ∧ "a\r".toList ∉ Text.lines longer := by
  intro path holding before after
  refine ⟨by decide, ⟨isStore_fullStore, by decide +kernel, by decide +kernel, by decide +kernel⟩,
    by decide +kernel, "a\r".toList, "a\r\nx\n".toList, by decide +kernel, by decide +kernel,
    by decide +kernel, by decide +kernel⟩

end VariantClasses.Gitignore
