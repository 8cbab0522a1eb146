import VariantClasses.Proofs.Build.Visits

/-! # Visits that fail for no reason on the disk

That a file cannot be read, or its output cannot be written, need not be seen on the disk. A visit
that fails so records nothing, and it leaves no more than a visit can leave anyway
(`Visited.leaves`).
-/

namespace VariantClasses.Session

open Disk

/-- Visits of files, any of which may fail also where the disk shows no reason. What such a visit
says is not determined, nor how much of the output it leaves. -/
inductive Visited (root : Path) (output : Option Path) :
    Session → List Path → Session → List (Path × FileStatus) → Prop
  | none (session : Session) : Visited root output session [] session []
  | visit {session after : Session} {file : Path} {files : List Path}
    {seen : List (Path × FileStatus)}
    (more : Visited root output (session.visit root file output).1 files after seen) :
    Visited root output session (file :: files) after
      ((file, (session.visit root file output).2) :: seen)
  | failed {session after : Session} {file : Path} {files : List Path} {left : Disk}
    {seen : List (Path × FileStatus)} (notices : List Notice)
    (leaves : Leaves output [file] session.disk left)
    (more : Visited root output ⟨session.build, left, notices⟩ files after seen) :
    Visited root output session (file :: files) after ((file, .failed) :: seen)

variable {root : Path} {output : Option Path} {session after : Session} {files : List Path}
  {seen : List (Path × FileStatus)}

/-- Visits that only fail where the disk shows a reason are visits. -/
theorem visited_visitAll (session : Session) (root : Path) (output : Option Path)
    (files : List Path) :
    Visited root output session files (session.visitAll root output files).1
      (session.visitAll root output files).2 := by
  induction files generalizing session with
  | nil => exact .none session
  | cons file files ih => exact .visit (ih _)

theorem Visited.leaves (h : Visited root output session files after seen)
    (htree : session.disk.IsTree) (hplain : ∀ file ∈ files, file.IsPlain) :
    Leaves output files session.disk after.disk := by
  induction h with
  | none session => exact .nil htree output
  | visit more ih =>
    obtain ⟨hfile, hfiles⟩ := List.forall_mem_cons.mp hplain
    have hvisit := leaves_visit _ root output htree hfile
    exact .cons htree hvisit (ih hvisit.tree hfiles)
  | failed notices leaves more ih =>
    obtain ⟨-, hfiles⟩ := List.forall_mem_cons.mp hplain
    exact .cons htree leaves (ih leaves.tree hfiles)

theorem Visited.exists_build (h : Visited root output session files after seen) :
    ∃ registry, after.build = { session.build with registry } := by
  induction h with
  | none session => exact ⟨_, rfl⟩
  | visit more ih =>
    obtain ⟨registry, hbuild⟩ := ih
    obtain ⟨recorded, hvisit⟩ := exists_visit_build _ root _ output
    exact ⟨registry, by rw [hbuild, hvisit]⟩
  | failed notices leaves more ih => exact ih

/-- Every file is seen, whatever comes of it. -/
theorem Visited.map_fst (h : Visited root output session files after seen) :
    seen.map Prod.fst = files := by
  induction h with
  | none session => rfl
  | visit more ih => rw [List.map_cons, ih]
  | failed notices leaves more ih => rw [List.map_cons, ih]

end VariantClasses.Session
