import Templating.Plan
import Templating.Tag.Registry
import Templating.Config
import Templating.Main
import Templating.Proofs.DigitChains
import Templating.Proofs.Spellings
import Templating.Proofs.Walks
import Templating.Proofs.Totals
import Templating.Proofs.ReadableTexts
import Templating.Proofs.WrittenTexts
import Templating.Proofs.Additions
import Templating.Proofs.WellFormedBuilders
import Templating.Proofs.RecordedRuns
import Templating.Proofs.CanonicalTexts
import Templating.Proofs.Retellings
import Templating.Proofs.QuotedStrings
import Templating.Proofs.WrittenNumbers
import Templating.Proofs.ReadItems
import Templating.Proofs.TakenValues
import Templating.Proofs.MapTexts
import Templating.Proofs.PlayedPlans
import Templating.Proofs.DecodedPlans
import Templating.Proofs.QualifiedNames
import Templating.Proofs.RegisteredNames
import Templating.Proofs.FoldedLookups
import Templating.Proofs.CompletePlans
import Templating.Proofs.JoinedEncodings
import Templating.Proofs.PaddedGroups
import Templating.Proofs.ReadValues
import Templating.Proofs.PrintableTexts
import Templating.Proofs.AgreeingFormats
import Templating.Proofs.ReadingEnds
import Templating.Proofs.Positions
import Templating.Proofs.Refusals
import Templating.Proofs.FirstFaults
import Templating.Proofs.ShortestSpellings
import Templating.Proofs.FirstRegistrations
import Templating.Proofs.GrowingMaps
import Templating.Proofs.FaultyPieces
import Templating.Proofs.RejectedTexts
import Templating.Proofs.RenamedSources
import Templating.Proofs.InlineComments
import Templating.Proofs.LowercaseTexts
import Templating.Proofs.ClosingChildren
import Templating.Proofs.UnorderedNames
import Templating.Proofs.ExtendedNames
import Templating.Proofs.KnownRules
import Templating.Proofs.SkippedValues
import Templating.Proofs.SpacedValues
import Templating.Proofs.DescribedMaps
import Templating.Proofs.RowTexts
import Templating.Proofs.BoundedDifferences
import Templating.Proofs.MergedSettings
