import VariantClasses.Main
import VariantClasses.Proofs.Expand.Writing
import VariantClasses.Proofs.Expand.Depth
import VariantClasses.Proofs.Markup.Classes
import VariantClasses.Proofs.Registry.History
import VariantClasses.Proofs.Build.Recording
import VariantClasses.Proofs.Build.Repeating
import VariantClasses.Proofs.Build.Agreement
import VariantClasses.Proofs.Build.Listing
import VariantClasses.Proofs.Artifact
import VariantClasses.Proofs.Registry.Interleaving
import VariantClasses.Proofs.ArtifactWriter
import VariantClasses.Proofs.ArtifactWriter.Retrying
import VariantClasses.Proofs.Gitignore.Keeping
import VariantClasses.Proofs.CommandLine
import VariantClasses.Proofs.Attribute.Cutting
import VariantClasses.Proofs.Attribute.Braces
import VariantClasses.Proofs.Attribute.Standing
import VariantClasses.Proofs.Expression
import VariantClasses.Proofs.Expression.Cutting
import VariantClasses.Proofs.Extensions
import VariantClasses.Proofs.Merge.Injecting
import VariantClasses.Proofs.Merge.Quoting
