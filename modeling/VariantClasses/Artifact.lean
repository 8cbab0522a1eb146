import VariantClasses.ClassSet

/-! # The artifact

The document that lists classes for a class scanner: one element whose class
attribute holds the classes, one on a line. It depends on the set of classes only.
-/

namespace VariantClasses

/-- The comment at the top of the document. -/
def artifactHeader : Text :=
  "<!-- generated by modattr; do not edit -->\n".toList

def artifactLine (class_ : Text) : Text :=
  "  ".toList ++ class_ ++ ['\n']

/-- The document that lists the classes. -/
def renderArtifact (classes : ClassSet) : Text :=
  let lines := if classes.isEmpty then [] else '\n' :: classes.toList.flatMap artifactLine
  artifactHeader ++ "<div class=\"".toList ++ lines ++ "\"></div>\n".toList

end VariantClasses
