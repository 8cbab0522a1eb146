import VariantClasses.Build.Session

/-! # Running a build

A run transforms every source file of a tree, whatever becomes of the single files.
Files can also be processed one at a time.
-/

namespace VariantClasses

/-- What a run over a tree leaves. -/
structure Build.Result where
  session : Session
  /-- The files in the order in which they were visited, and what became of each. -/
  seen : List (Path × FileStatus)
  summary : Except Failure Summary

namespace Build

/-- Transforms every source file below a root, then brings the artifact and the
`.gitignore` next to it up to date. What was recorded before is dropped. -/
def run (build : Build) (disk : Disk) (root : Path) (output : Option Path) : Build.Result :=
  let session : Session := ⟨{ build with registry := .empty }, disk, []⟩
  let (session, seen) := session.visitAll root output (build.sources disk root)
  match session.syncArtifact with
  | (session, .error failure) => ⟨session, seen, .error failure⟩
  | (session, .ok ()) =>
    match session.ignoreArtifact with
    | (session, .error failure) => ⟨session, seen, .error failure⟩
    | (session, .ok ()) =>
      ⟨session, seen, .ok (Session.summarise seen session.build.registry.size)⟩

/-- Transforms one file, and brings the artifact up to date when a class was recorded for
the first time. -/
def processFile (build : Build) (disk : Disk) (root file : Path) (output : Option Path) :
    Session × Except Failure FileStatus :=
  match Session.transformOne ⟨build, disk, []⟩ root file output with
  | (session, .error failure) => (session, .error failure)
  | (session, .ok status) =>
    if session.build.registry.size = build.registry.size then (session, .ok status)
    else
      match session.syncArtifact with
      | (session, .error failure) => (session, .error failure)
      | (session, .ok ()) => (session, .ok status)

end Build

end VariantClasses
