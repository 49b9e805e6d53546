import Companion.Files.Access
import Companion.Generation.Run
import Companion.Sample
import Companion.Proofs.Collections.FirstOccurrences
import Companion.Proofs.Model.BaseLinks
import Companion.Proofs.Model.BaseCircles
import Companion.Proofs.Model.Consistency
import Companion.Proofs.Discovery.Selection
import Companion.Proofs.Discovery.MarkerType
import Companion.Proofs.Generation.Outcome
import Companion.Proofs.Model.FullNames
import Companion.Proofs.Model.Calls
import Companion.Proofs.Model.Verdict
import Companion.Proofs.Markup.Attributes
import Companion.Proofs.Markup.Continuation
import Companion.Proofs.Markup.Nesting
import Companion.Proofs.Markup.Wrapping
import Companion.Proofs.Manifest.ClassTags
import Companion.Proofs.Manifest.OpenElements
import Companion.Proofs.Manifest.Notes
import Companion.Proofs.Manifest.Declared
import Companion.Proofs.Manifest.Acceptance
import Companion.Proofs.Manifest.Lenience
import Companion.Proofs.Manifest.BaseNames
import Companion.Proofs.Manifest.LookUps
import Companion.Proofs.Manifest.Linked
import Companion.Proofs.Manifest.Declarations
import Companion.Proofs.Manifest.CutShort
import Companion.Proofs.Manifest.Documents
import Companion.Proofs.Manifest.DocumentOrder
import Companion.Proofs.Manifest.Undisturbed
import Companion.Proofs.Manifest.FilledIn
import Companion.Proofs.Model.ScopePaths
import Companion.Proofs.Model.SimpleNames
import Companion.Proofs.Manifest.Merging
import Companion.Proofs.Manifest.WellFormed
import Companion.Proofs.Files.Contents
import Companion.Proofs.Files.Walks
import Companion.Proofs.Files.Requests
import Companion.Proofs.Generation.Confinement
import Companion.Proofs.Manifest.NestedScopes
import Companion.Proofs.Manifest.WithoutBases
import Companion.Proofs.Model.Growth
import Companion.Proofs.Generation.EarlierUnits
import Companion.Proofs.Generation.Deliveries
import Companion.Proofs.Generation.Overwriting
import Companion.Proofs.Manifest.Outline
import Companion.Proofs.Template.OnePass
import Companion.Proofs.Template.LaterPasses
import Companion.Proofs.Generation.UnitText
import Companion.Proofs.Manifest.Resolution
import Companion.Proofs.Manifest.LinkSteps
import Companion.Proofs.Model.ExternalNames
import Companion.Proofs.Manifest.Respelling
import Companion.Proofs.Generation.KeyCollisions
import Companion.Proofs.Generation.Emission
import Companion.Proofs.Model.BaseWalks
import Companion.Proofs.Generation.RepeatedOffers
import Companion.Proofs.Model.Profiles
import Companion.Proofs.Sample.Compilations
import Companion.Proofs.Manifest.DraftProfiles
import Companion.Proofs.Markup.WrittenTags
import Companion.Proofs.Sample.Manifests
import Companion.Proofs.Model.PathWalks
import Companion.Proofs.Manifest.LinkOrder
import Companion.Proofs.Manifest.ScopeSearch
