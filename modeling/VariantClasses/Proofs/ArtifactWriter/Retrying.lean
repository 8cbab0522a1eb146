import VariantClasses.Proofs.ArtifactWriter

/-! # Trying again after a failure

A write fails where the directories above the artifact cannot be made or where the artifact itself
cannot be written. Only the second is forgotten. After the first the writer still remembers the
document of an earlier write, so it skips that document although others may have taken the
artifact away meanwhile (`History.tries_iff`).
-/

namespace VariantClasses.ArtifactWriter

/-- The calls of a new writer with their outcomes, the latest first. Others change the disk between
them in any way, so each call finds a disk of its own. -/
inductive History (path : Path) : List (Call × Except Failure Bool) → ArtifactWriter → Prop
  | new : History path [] (.new path)
  | called {calls : List (Call × Except Failure Bool)} {writer : ArtifactWriter}
    (h : History path calls writer) (disk : Disk) (call : Call) :
    History path ((call, (writer.answer disk call).2) :: calls) (writer.answer disk call).1.1

/-- A registry is brought up to date by trying to write its document. -/
def Tries (writer : ArtifactWriter) (disk : Disk) (registry : Registry) : Prop :=
  (writer.sync disk registry).2 = .ok true ∨
    ∃ failure, (writer.sync disk registry).2 = .error failure

variable {path : Path} {calls earlier : List (Call × Except Failure Bool)}
  {writer : ArtifactWriter} {disk : Disk} {registry : Registry} {call : Call} {failure : Failure}

theorem tries_iff_ne_skip :
    Tries writer disk registry ↔ (writer.sync disk registry).2 ≠ .ok false := by
  rw [Tries]
  cases (writer.sync disk registry).2 with
  | error failure => simp
  | ok wrote => cases wrote <;> simp

/-- Whatever others did, a writer remembers the document that stands by its own calls. -/
theorem History.recalls (h : History path calls writer) :
    writer.path = path ∧
      ∀ document, writer.written = some document ↔ Stands path document calls := by
  induction h with
  | new => exact ⟨rfl, fun document => by simp [ArtifactWriter.new, Stands]⟩
  | @called calls writer h disk call ih =>
    exact ⟨(writer.path_answer disk call).trans ih.1, written_answer_iff ih.1 ih.2 disk call⟩

/-- A call fails at the directories above the artifact or at the artifact. -/
theorem failure_of_answer (h : (writer.answer disk call).2 = .error failure) :
    (∃ fault, failure = .disk writer.path.directory fault) ∨
      ∃ fault, failure = .disk writer.path fault := by
  rcases writer.answer_cases disk call with ⟨-, hskip⟩ | hwrite
  · rw [hskip] at h
    cases h
  · rw [hwrite] at h
    cases houtcome : (writer.write disk call.document).2 with
    | ok done =>
      rw [houtcome] at h
      cases h
    | error found =>
      rw [houtcome] at h
      obtain rfl := Except.error.inj h
      rcases write_error houtcome with ⟨fault, hfailure, -⟩ | ⟨fault, hfailure, -⟩
      · exact .inl ⟨fault, hfailure⟩
      · exact .inr ⟨fault, hfailure⟩

theorem History.exists_called {outcome : Except Failure Bool}
    (h : History path ((call, outcome) :: earlier) writer) :
    ∃ before disk, History path earlier before ∧ (answer before disk call).2 = outcome := by
  generalize hcalls : (call, outcome) :: earlier = calls at h
  cases h with
  | new => cases hcalls
  | called h disk latest =>
    obtain ⟨hlatest, rfl⟩ := List.cons.inj hcalls
    obtain ⟨rfl, rfl⟩ := Prod.mk.inj hlatest
    exact ⟨_, disk, h, rfl⟩

/-- After a call that failed, what the writer remembers is what stood before the call, unless the
call came to write the artifact. -/
theorem History.written_iff (h : History path ((call, .error failure) :: earlier) writer)
    (document : Text) : writer.written = some document ↔
      (∀ fault, failure ≠ .disk path fault) ∧ Stands path document earlier := by
  rw [h.recalls.2]
  simp [Stands, Touches]

/-- A call fails at the directories above the artifact or at the artifact itself. After it the next
registry is tried, whatever became of the disk, exactly when the call failed at the artifact itself
or the document of the registry is not the one that stood before the call. -/
theorem History.tries_iff (h : History path ((call, .error failure) :: earlier) writer) :
    ((∃ fault, failure = .disk path.directory fault) ∨ ∃ fault, failure = .disk path fault) ∧
      ∀ disk registry, Tries writer disk registry ↔
        (∃ fault, failure = .disk path fault) ∨
          ¬Stands path (renderArtifact registry.classes) earlier := by
  constructor
  · obtain ⟨before, disk, hbefore, hfailed⟩ := h.exists_called
    rw [← hbefore.recalls.1]
    exact failure_of_answer hfailed
  · intro disk registry
    rw [tries_iff_ne_skip, ne_eq, sync_snd_eq_ok_false_iff, h.written_iff, not_and_or, not_forall]
    simp only [not_not]

-- Comparing writers must not evaluate the calls.
seal answer in
/-- After a write that failed at the artifact the same registry is tried again; after one that
failed above it, a registry of another document is. -/
theorem tries_iff_of_torn_and_blocked_writes :
    let path : Path := .ofString "out/a.html"
    let hovered := Registry.empty.record (.ofString "a.svelte") ["hover:x".toList]
    let focused := Registry.empty.record (.ofString "a.svelte") ["focus:y".toList]
    let empty : Disk := ⟨∅, []⟩
    let directory := empty.put ["out".toList] .directory
    let occupied := directory.put ["out".toList, "a.html".toList] .directory
    let blocked := empty.put ["out".toList] (.file ByteArray.empty)
    let first := (new path).answer empty (.sync hovered)
    let torn := first.1.1.answer occupied (.sync focused)
    let above := first.1.1.answer blocked (.sync focused)
    History path [(.sync focused, .error (.disk path .isDirectory)), (.sync hovered, .ok true)]
        torn.1.1 ∧
      (∀ disk, Tries torn.1.1 disk hovered) ∧
      History path [(.sync focused, .error (.disk path.directory .occupied)),
        (.sync hovered, .ok true)] above.1.1 ∧
      ∀ disk, Tries above.1.1 disk focused := by
  intro path hovered focused empty directory occupied blocked first torn above
  have hfirst : first.2 = .ok true := by decide +kernel
  have htorn : torn.2 = .error (.disk path .isDirectory) := by decide +kernel
  have habove : above.2 = .error (.disk path.directory .occupied) := by decide +kernel
  have hwritten : History path [(.sync hovered, .ok true)] first.1.1 :=
    hfirst ▸ History.new.called empty (.sync hovered)
  have hfailed : History path
      [(.sync focused, .error (.disk path .isDirectory)), (.sync hovered, .ok true)] torn.1.1 :=
    htorn ▸ hwritten.called occupied (.sync focused)
  have hstopped : History path [(.sync focused, .error (.disk path.directory .occupied)),
      (.sync hovered, .ok true)] above.1.1 :=
    habove ▸ hwritten.called blocked (.sync focused)
  refine ⟨hfailed, fun disk => (hfailed.tries_iff.2 disk hovered).mpr (.inl ⟨_, rfl⟩), hstopped,
    fun disk => (hstopped.tries_iff.2 disk focused).mpr (.inr ?_)⟩
  rw [stands_of_written]
  decide +kernel

seal answer in
/-- Where the directory above the artifact cannot be made, the writer goes on remembering the
document of the earlier write. Once the way is free the registry of that document is skipped,
and there is no artifact. -/
theorem not_tries_of_blocked_directory :
    let path : Path := .ofString "out/a.html"
    let hovered := Registry.empty.record (.ofString "a.svelte") ["hover:x".toList]
    let empty : Disk := ⟨∅, []⟩
    let blocked := empty.put ["out".toList] (.file ByteArray.empty)
    let first := (new path).answer empty (.sync hovered)
    let second := first.1.1.answer blocked (.forceWrite hovered)
    let third := second.1.1.sync empty hovered
    History path [(.forceWrite hovered, .error (.disk (.ofString "out") .occupied)),
        (.sync hovered, .ok true)] second.1.1 ∧
      third.2 = .ok false ∧ third.1.2.read path = .error .missing := by
  intro path hovered empty blocked first second third
  have hfirst : first.2 = .ok true := by decide +kernel
  have hsecond : second.2 = .error (.disk (.ofString "out") .occupied) := by decide +kernel
  have hwritten : History path [(.sync hovered, .ok true)] first.1.1 :=
    hfirst ▸ History.new.called empty (.sync hovered)
  exact ⟨hsecond ▸ hwritten.called blocked (.forceWrite hovered), by decide +kernel,
    by decide +kernel⟩

end VariantClasses.ArtifactWriter
