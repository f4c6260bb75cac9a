import MixinLink.CommandLine.FileTree
import MixinLink.Main
import MixinLink.Proofs.CanonicalText
import MixinLink.Proofs.ClassLiterals
import MixinLink.Proofs.CompletionOrder
import MixinLink.Proofs.DerivedNames
import MixinLink.Proofs.DescriptorGrammar
import MixinLink.Proofs.FailedLinkages
import MixinLink.Proofs.HiddenMembers
import MixinLink.Proofs.Isolation
import MixinLink.Proofs.LiteralOrder
import MixinLink.Proofs.MappedDescriptors
import MixinLink.Proofs.NothingRenamed
import MixinLink.Proofs.OrderIndependence
import MixinLink.Proofs.Passes
import MixinLink.Proofs.RoundTrip
import MixinLink.Proofs.TargetChoice
import MixinLink.Proofs.FlatReading
import MixinLink.Proofs.RepeatedLookups
import MixinLink.Proofs.DividedNames
import MixinLink.Proofs.Inflection
import MixinLink.Proofs.JavaLiterals
import MixinLink.Proofs.ShadowedFields
import MixinLink.Proofs.CleanedClasses
