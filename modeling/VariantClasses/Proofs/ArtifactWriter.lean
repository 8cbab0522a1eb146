import VariantClasses.Proofs.Build.Finish

/-! # The writer of the artifact

A writer skips a document that it wrote last. Whatever calls came before and whichever of
them failed, a call that ends well leaves the artifact with the document of its registry
(`Course.inStep`): what the writer remembers is the document that its calls left there, and
a write that fails at the artifact is forgotten (`Course.knows`).
-/

namespace VariantClasses.ArtifactWriter

open Disk

/-! ## Calls -/

/-- A call of a writer. -/
inductive Call
  | sync (registry : Registry)
  | forceWrite (registry : Registry)

def Call.registry : Call → Registry
  | .sync registry | .forceWrite registry => registry

/-- The document that the artifact holds if the call ends well. -/
def Call.document (call : Call) : Text :=
  renderArtifact call.registry.classes

/-- Carries out a call, and says whether the document was written. -/
def answer (writer : ArtifactWriter) (disk : Disk) :
    Call → (ArtifactWriter × Disk) × Except Failure Bool
  | .sync registry => writer.sync disk registry
  | .forceWrite registry =>
    let (state, outcome) := writer.forceWrite disk registry
    (state, outcome.map fun _ => true)

variable {path : Path} {writer : ArtifactWriter} {disk : Disk} {call : Call}

/-- A call skips the document that is remembered, or it writes. -/
theorem answer_cases (writer : ArtifactWriter) (disk : Disk) (call : Call) :
    (writer.written = some call.document ∧
        writer.answer disk call = ((writer, disk), .ok false)) ∨
      writer.answer disk call = ((writer.write disk call.document).1,
        (writer.write disk call.document).2.map fun _ => true) := by
  cases call with
  | forceWrite registry => exact .inr rfl
  | sync registry =>
    by_cases hwritten : writer.written = some (renderArtifact registry.classes)
    · exact .inl ⟨hwritten, sync_of_written hwritten⟩
    · exact .inr (if_neg hwritten)

/-- The directories could not be made, and the writer is as it was, or the artifact could not
be written, and nothing is remembered. -/
theorem write_error {document : Text} {failure : Failure}
    (h : (writer.write disk document).2 = .error failure) :
    (∃ fault, failure = .disk writer.path.directory fault ∧ writer.path.text ≠ [] ∧
        (writer.write disk document).1.1 = writer) ∨
      ∃ fault, failure = .disk writer.path fault ∧
        (writer.write disk document).1.1 = ⟨writer.path, none⟩ := by
  rw [write] at h ⊢
  cases hmade : disk.makeDirectories writer.path.directory with
  | mk made outcome =>
    rw [hmade] at h
    cases outcome with
    | error fault =>
      refine .inl ⟨fault, (Except.error.inj h).symm, ?_, rfl⟩
      -- The empty path lies in the empty path, where nothing is to be made.
      intro hnil
      have hempty : writer.path.directory = ⟨[]⟩ := by
        rw [show writer.path = ⟨[]⟩ from congrArg Path.mk hnil]
        rfl
      rw [hempty] at hmade
      cases hmade
    | ok done =>
      dsimp only at h ⊢
      cases hwrite : made.write writer.path document.encode with
      | error fault =>
        rw [hwrite] at h
        exact .inr ⟨fault, (Except.error.inj h).symm, rfl⟩
      | ok written =>
        rw [hwrite] at h
        cases h

/-- Whether a call with this outcome came to write the artifact. -/
def Touches (path : Path) (outcome : Except Failure Bool) : Prop :=
  outcome = .ok true ∨ ∃ fault, outcome = .error (.disk path fault)

/-- A call leaves the document that it writes, or nothing, where it came to write; otherwise it
leaves what was there. -/
theorem written_answer (hpath : writer.path = path) (disk : Disk) (call : Call) :
    ((writer.answer disk call).2 = .ok true ∧
        (writer.answer disk call).1.1 = ⟨path, some call.document⟩) ∨
      ((∃ fault, (writer.answer disk call).2 = .error (.disk path fault)) ∧
        (writer.answer disk call).1.1 = ⟨path, none⟩) ∨
      (¬Touches path (writer.answer disk call).2 ∧ (writer.answer disk call).1.1 = writer) := by
  subst hpath
  rcases writer.answer_cases disk call with ⟨-, hskip⟩ | hwrite
  · rw [hskip]
    exact .inr (.inr ⟨by simp [Touches], rfl⟩)
  rw [hwrite]
  cases houtcome : (writer.write disk call.document).2 with
  | ok done =>
    rcases writer.write_cases disk call.document with ⟨_, -, _, hfail⟩ | ⟨after, -, hdone⟩
    · rw [hfail] at houtcome
      cases houtcome
    · rw [hdone]
      exact .inl ⟨rfl, rfl⟩
  | error failure =>
    rcases write_error houtcome with ⟨fault, rfl, hne, hkept⟩ | ⟨fault, rfl, hforgotten⟩
    · refine .inr (.inr ⟨?_, hkept⟩)
      have hdirectory := Path.directory_ne hne
      simp [Touches, Except.map, hdirectory]
    · exact .inr (.inl ⟨⟨fault, rfl⟩, hforgotten⟩)

theorem path_answer (writer : ArtifactWriter) (disk : Disk) (call : Call) :
    (writer.answer disk call).1.1.path = writer.path := by
  cases call with
  | sync registry => exact writer.path_sync disk registry
  | forceWrite registry => exact writer.path_write disk _

theorem Remembers.answer (h : writer.Remembers disk) (call : Call) :
    (writer.answer disk call).1.1.Remembers (writer.answer disk call).1.2 := by
  cases call with
  | sync registry => exact h.sync registry
  | forceWrite registry => exact h.write _

/-- After a call that ends well the artifact holds its document, if the artifact held what was
remembered. -/
theorem Remembers.answer_of_ok (h : writer.Remembers disk) {wrote : Bool}
    (hok : (writer.answer disk call).2 = .ok wrote) :
    (writer.answer disk call).1.2.read writer.path = .ok call.document.encode := by
  rcases writer.answer_cases disk call with ⟨hwritten, hskip⟩ | hwrite
  · rw [hskip]
    exact h _ hwritten
  · rw [hwrite] at hok ⊢
    obtain ⟨done, hdone, -⟩ := map_eq_ok_iff.mp hok
    exact write_of_ok hdone

/-! ## The course of a writer -/

/-- What a path reads stays as it is. -/
def Keeps (path : Path) (before after : Disk) : Prop :=
  ∀ bytes, before.read path = .ok bytes → after.read path = .ok bytes

theorem Remembers.of_keeps {after : Disk} (h : writer.Remembers disk)
    (hkept : Keeps writer.path disk after) : writer.Remembers after :=
  fun document hdocument => hkept _ (h document hdocument)

/-- The calls of a new writer with their outcomes, the latest first, and the disk that they
leave while others change anything but the artifact. What makes a call fail need not be seen on
the disk, as when a device is full: it fails as on some other disk. A write that fails at the
artifact may leave anything there. -/
inductive Course (path : Path) :
    List (Call × Except Failure Bool) → ArtifactWriter → Disk → Prop
  | new (disk : Disk) : Course path [] (.new path) disk
  | others {calls : List (Call × Except Failure Bool)} {writer : ArtifactWriter}
    {before after : Disk} (h : Course path calls writer before) (kept : Keeps path before after) :
    Course path calls writer after
  | done {calls : List (Call × Except Failure Bool)} {writer : ArtifactWriter} {disk : Disk}
    (h : Course path calls writer disk) (call : Call) {wrote : Bool}
    (outcome : (writer.answer disk call).2 = .ok wrote) :
    Course path ((call, .ok wrote) :: calls) (writer.answer disk call).1.1
      (writer.answer disk call).1.2
  | failed {calls : List (Call × Except Failure Bool)} {writer : ArtifactWriter} {disk : Disk}
    (h : Course path calls writer disk) (call : Call) (shown after : Disk) {failure : Failure}
    (outcome : (writer.answer shown call).2 = .error failure)
    (kept : (∀ fault, failure ≠ .disk path fault) → Keeps path disk after) :
    Course path ((call, .error failure) :: calls) (writer.answer shown call).1.1 after

/-- A call that fails on a disk leaves what the artifact reads. -/
theorem keeps_of_answer_error {failure : Failure}
    (h : (writer.answer disk call).2 = .error failure) (path : Path) :
    Keeps path disk (writer.answer disk call).1.2 := by
  intro bytes hread
  rcases writer.answer_cases disk call with ⟨-, hskip⟩ | hwrite
  · rw [hskip]
    exact hread
  rw [hwrite] at h ⊢
  rcases writer.write_cases disk call.document with ⟨_, -, _, hfail⟩ | ⟨after, -, hdone⟩
  · rw [hfail]
    exact (changes_makeDirectories_directory disk writer.path).read hread (Set.notMem_empty _)
  · rw [hdone] at h
    cases h

/-- A call on the disk as it is, whatever comes of it. -/
theorem Course.answer {calls : List (Call × Except Failure Bool)}
    (h : Course path calls writer disk) (call : Call) :
    Course path ((call, (writer.answer disk call).2) :: calls) (writer.answer disk call).1.1
      (writer.answer disk call).1.2 := by
  cases houtcome : (writer.answer disk call).2 with
  | ok wrote => exact h.done call houtcome
  | error failure =>
    exact h.failed call disk _ houtcome fun _ => keeps_of_answer_error houtcome path

/-- The artifact was left with a document: the latest call that came to write the artifact wrote
that. -/
def Stands (path : Path) (document : Text) : List (Call × Except Failure Bool) → Prop
  | [] => False
  | (call, outcome) :: earlier =>
    (outcome = .ok true ∧ call.document = document) ∨
      (¬Touches path outcome ∧ Stands path document earlier)

variable {calls : List (Call × Except Failure Bool)} {document : Text}

theorem stands_of_written (call : Call) :
    Stands path document ((call, .ok true) :: calls) ↔ call.document = document := by
  simp [Stands, Touches]

theorem not_stands_of_failed (call : Call) (fault : DiskFault) :
    ¬Stands path document ((call, .error (.disk path fault)) :: calls) := by
  simp [Stands, Touches]

theorem stands_of_not_touches {outcome : Except Failure Bool} (h : ¬Touches path outcome)
    (call : Call) :
    Stands path document ((call, outcome) :: calls) ↔ Stands path document calls := by
  have houtcome : outcome ≠ .ok true := fun houtcome => h (.inl houtcome)
  simp [Stands, h, houtcome]

/-- What stands after one more call is what the writer remembers after it. -/
theorem written_answer_iff (hpath : writer.path = path)
    (hwritten : ∀ document, writer.written = some document ↔ Stands path document calls)
    (shown : Disk) (call : Call) (document : Text) :
    (writer.answer shown call).1.1.written = some document ↔
      Stands path document ((call, (writer.answer shown call).2) :: calls) := by
  rcases written_answer hpath shown call with
    ⟨houtcome, hstate⟩ | ⟨⟨fault, houtcome⟩, hstate⟩ | ⟨htouches, hstate⟩
  · rw [houtcome, hstate, stands_of_written, Option.some_inj]
  · rw [houtcome, hstate]
    simp [not_stands_of_failed]
  · rw [hstate, stands_of_not_touches htouches, hwritten]

/-- What a writer knows after its calls: the document that stands, which the artifact holds. -/
structure Knows (path : Path) (calls : List (Call × Except Failure Bool))
    (writer : ArtifactWriter) (disk : Disk) : Prop where
  path_eq : writer.path = path
  written_iff (document : Text) : writer.written = some document ↔ Stands path document calls
  remembers : writer.Remembers disk

/-- A call that fails either forgets what was remembered or leaves the artifact as it is. -/
theorem Knows.remembers_failed (h : Knows path calls writer disk) {shown after : Disk}
    {failure : Failure} (hfailed : (writer.answer shown call).2 = .error failure)
    (hkept : (∀ fault, failure ≠ .disk path fault) → Keeps path disk after) :
    (writer.answer shown call).1.1.Remembers after := by
  rcases written_answer h.path_eq shown call with
    ⟨houtcome, -⟩ | ⟨-, hstate⟩ | ⟨htouches, hstate⟩
  · rw [hfailed] at houtcome
    cases houtcome
  · rw [hstate]
    intro document hdocument
    cases hdocument
  · rw [hstate]
    apply h.remembers.of_keeps
    rw [h.path_eq]
    apply hkept
    intro fault hfailure
    exact htouches (.inr ⟨fault, by rw [hfailed, hfailure]⟩)

/-- At every point of its course a writer knows what the artifact holds. -/
theorem Course.knows (h : Course path calls writer disk) : Knows path calls writer disk := by
  induction h with
  | new disk =>
    refine ⟨rfl, fun document => by simp [ArtifactWriter.new, Stands], ?_⟩
    intro document hdocument
    cases hdocument
  | others h kept ih =>
    exact ⟨ih.path_eq, ih.written_iff, ih.remembers.of_keeps (ih.path_eq ▸ kept)⟩
  | @done calls writer disk h call wrote outcome ih =>
    refine ⟨(writer.path_answer disk call).trans ih.path_eq, ?_, ih.remembers.answer call⟩
    intro document
    rw [written_answer_iff ih.path_eq ih.written_iff, outcome]
  | @failed calls writer disk h call shown after failure outcome kept ih =>
    refine ⟨(writer.path_answer shown call).trans ih.path_eq, ?_,
      ih.remembers_failed outcome kept⟩
    intro document
    rw [written_answer_iff ih.path_eq ih.written_iff, outcome]

/-- After a call that ended well its document is remembered, also where it was skipped. -/
theorem Course.written_of_ok (h : Course path calls writer disk) {wrote : Bool}
    {earlier : List (Call × Except Failure Bool)} (hlatest : calls = (call, .ok wrote) :: earlier) :
    writer.written = some call.document := by
  induction h with
  | new disk => cases hlatest
  | others h kept ih => exact ih hlatest
  | @done calls writer disk h latest answer outcome ih =>
    obtain ⟨hanswered, -⟩ := List.cons.inj hlatest
    obtain rfl : latest = call := congrArg Prod.fst hanswered
    rcases writer.answer_cases disk latest with ⟨hwritten, hskip⟩ | hwrite
    · rw [hskip]
      exact hwritten
    · rw [hwrite] at outcome
      obtain ⟨done, hdone, -⟩ := map_eq_ok_iff.mp outcome
      rcases writer.write_cases disk latest.document with ⟨_, -, _, hfail⟩ | ⟨after, -, hdeposit⟩
      · rw [hfail] at hdone
        cases hdone
      · rw [hwrite, hdeposit]
  | failed h call shown after outcome kept ih => cases hlatest

/-! ## Keeping in step -/

theorem sync_snd_eq_ok_false_iff {registry : Registry} :
    (writer.sync disk registry).2 = .ok false ↔
      writer.written = some (renderArtifact registry.classes) := by
  constructor
  · intro hskip
    by_contra hnew
    rw [sync, if_neg hnew] at hskip
    obtain ⟨done, -, hfalse⟩ := map_eq_ok_iff.mp hskip
    cases hfalse
  · intro hwritten
    rw [sync_of_written hwritten]

theorem not_stands_of_none_ok
    (h : ∀ answered ∈ calls, ∀ wrote, answered.2 ≠ .ok wrote) : ¬Stands path document calls := by
  induction calls with
  | nil => exact id
  | cons answered calls ih =>
    rintro (⟨hwrote, -⟩ | ⟨-, hearlier⟩)
    · exact h answered List.mem_cons_self true hwrote
    · exact ih (fun other hother => h other (List.mem_cons_of_mem _ hother)) hearlier

/-- How a writer answers the next call after its calls so far. -/
structure InStep (path : Path) (calls : List (Call × Except Failure Bool))
    (writer : ArtifactWriter) (disk : Disk) : Prop where
  /-- After a call that ends well the artifact holds the document of its registry. -/
  holds (call : Call) (wrote : Bool) (hok : (writer.answer disk call).2 = .ok wrote) :
    (writer.answer disk call).1.2.read path = .ok (renderArtifact call.registry.classes).encode
  /-- A registry is skipped exactly when an earlier call wrote its document and no later one came
  to write the artifact. -/
  skips (registry : Registry) :
    (writer.sync disk registry).2 = .ok false ↔
      Stands path (renderArtifact registry.classes) calls
  /-- The artifact holds the document of a registry that is skipped already. -/
  held (registry : Registry) (hskip : (writer.sync disk registry).2 = .ok false) :
    disk.read path = .ok (renderArtifact registry.classes).encode
  /-- A registry that is brought up to date otherwise is written. -/
  writes (registry : Registry) (hother : ¬Stands path (renderArtifact registry.classes) calls)
    (wrote : Bool) (hok : (writer.sync disk registry).2 = .ok wrote) : wrote = true
  /-- The first registry that is brought up to date is written. -/
  first (registry : Registry) (hnone : ∀ answered ∈ calls, ∀ wrote, answered.2 ≠ .ok wrote)
    (wrote : Bool) (hok : (writer.sync disk registry).2 = .ok wrote) : wrote = true
  /-- A registry with the classes of the one that the latest call brought up to date is
  skipped. -/
  again (call : Call) (wrote : Bool) (earlier : List (Call × Except Failure Bool))
    (hlatest : calls = (call, .ok wrote) :: earlier) (registry : Registry)
    (hclasses : registry.classes = call.registry.classes) :
    (writer.sync disk registry).2 = .ok false

/-- Whatever calls came before and whichever of them failed, a writer keeps the artifact in step
with the registries. -/
theorem Course.inStep (h : Course path calls writer disk) : InStep path calls writer disk := by
  have hknows := h.knows
  have hskips (registry : Registry) : (writer.sync disk registry).2 = .ok false ↔
      Stands path (renderArtifact registry.classes) calls :=
    sync_snd_eq_ok_false_iff.trans (hknows.written_iff _)
  have hwrites (registry : Registry)
      (hother : ¬Stands path (renderArtifact registry.classes) calls) (wrote : Bool)
      (hok : (writer.sync disk registry).2 = .ok wrote) : wrote = true := by
    rw [← Bool.not_eq_false]
    rintro rfl
    exact hother ((hskips registry).mp hok)
  refine ⟨?_, hskips, ?_, hwrites, ?_, ?_⟩
  · intro call wrote hok
    rw [← hknows.path_eq]
    exact hknows.remembers.answer_of_ok hok
  · intro registry hskip
    rw [← hknows.path_eq]
    exact hknows.remembers _ (sync_snd_eq_ok_false_iff.mp hskip)
  · intro registry hnone
    exact hwrites registry (not_stands_of_none_ok hnone)
  · intro call wrote earlier hlatest registry hclasses
    rw [sync_snd_eq_ok_false_iff, hclasses]
    exact h.written_of_ok hlatest

-- Comparing disks must not evaluate the calls.
seal answer in
/-- A write that is torn is forgotten: the registry that was written before it is written again,
although it has as many classes. -/
theorem inStep_of_torn_write :
    let path : Path := .ofString "out/a.html"
    let place : Location := ["out".toList, "a.html".toList]
    let hovered := Registry.empty.record (.ofString "a.svelte") ["hover:x".toList]
    let focused := Registry.empty.record (.ofString "a.svelte") ["focus:y".toList]
    let first := (new path).answer ⟨∅, []⟩ (.sync hovered)
    let blocked := ((Disk.mk ∅ []).put ["out".toList] .directory).put place .directory
    let second := first.1.1.answer blocked (.forceWrite focused)
    let torn := first.1.2.put place (.file ByteArray.empty)
    let third := second.1.1.answer torn (.sync hovered)
    let calls : List (Call × Except Failure Bool) :=
      [(.forceWrite focused, .error (.disk path .isDirectory)), (.sync hovered, .ok true)]
    Course path calls second.1.1 torn ∧ InStep path calls second.1.1 torn ∧
      third.2 = .ok true ∧ third.1.2.read path = .ok (renderArtifact hovered.classes).encode := by
  intro path place hovered focused first blocked second torn third calls
  have hfirst : first.2 = .ok true := by decide +kernel
  have hsecond : second.2 = .error (.disk path .isDirectory) := by decide +kernel
  have hthird : third.2 = .ok true := by decide +kernel
  have hwritten : Course path [(.sync hovered, .ok true)] first.1.1 first.1.2 :=
    (Course.new ⟨∅, []⟩).done (.sync hovered) hfirst
  have hcourse : Course path calls second.1.1 torn := by
    apply hwritten.failed (.forceWrite focused) blocked torn hsecond
    intro hapart
    exact absurd rfl (hapart .isDirectory)
  exact ⟨hcourse, hcourse.inStep, hthird, hcourse.inStep.holds (.sync hovered) true hthird⟩

end VariantClasses.ArtifactWriter
