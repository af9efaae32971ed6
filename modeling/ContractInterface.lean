import ContractInterface.Main
import ContractInterface.Proofs.Agreement
import ContractInterface.Proofs.ArrayLengths
import ContractInterface.Proofs.BalancedTexts
import ContractInterface.Proofs.Blocks
import ContractInterface.Proofs.CanonicalSignatures
import ContractInterface.Proofs.CanonicalTexts
import ContractInterface.Proofs.Clauses
import ContractInterface.Proofs.CollapsedFindings
import ContractInterface.Proofs.CollapsedHeads
import ContractInterface.Proofs.CollapsedOutcomes
import ContractInterface.Proofs.CollapsedScans
import ContractInterface.Proofs.CollapsedSignatures
import ContractInterface.Proofs.CollapsedSpans
import ContractInterface.Proofs.CollapsedStatements
import ContractInterface.Proofs.CollapsedTypes
import ContractInterface.Proofs.Collapsing
import ContractInterface.Proofs.CommentsAsBlanks
import ContractInterface.Proofs.Declarator
import ContractInterface.Proofs.Definitions
import ContractInterface.Proofs.DirectoryRuns
import ContractInterface.Proofs.DiscoveredTypes
import ContractInterface.Proofs.Discovery
import ContractInterface.Proofs.ElementaryTypes
import ContractInterface.Proofs.Expressions
import ContractInterface.Proofs.Fields
import ContractInterface.Proofs.Findings
import ContractInterface.Proofs.FlattenedTypes
import ContractInterface.Proofs.GetterRounds
import ContractInterface.Proofs.GetterShapes
import ContractInterface.Proofs.Grounding
import ContractInterface.Proofs.Headers
import ContractInterface.Proofs.Heads
import ContractInterface.Proofs.HiddenDeclarations
import ContractInterface.Proofs.Initialiser
import ContractInterface.Proofs.Items
import ContractInterface.Proofs.KeyedEntries
import ContractInterface.Proofs.Layout
import ContractInterface.Proofs.Leaves
import ContractInterface.Proofs.Lexemes
import ContractInterface.Proofs.ListingLines
import ContractInterface.Proofs.LiteralContents
import ContractInterface.Proofs.LiteralEnds
import ContractInterface.Proofs.LiteralStatements
import ContractInterface.Proofs.LocalTypes
import ContractInterface.Proofs.Locations
import ContractInterface.Proofs.MappingSpellings
import ContractInterface.Proofs.Matching
import ContractInterface.Proofs.MatchingDelimiters
import ContractInterface.Proofs.Meaning
import ContractInterface.Proofs.MergeLaws
import ContractInterface.Proofs.Merging
import ContractInterface.Proofs.NormalizedTypes
import ContractInterface.Proofs.OneLine
import ContractInterface.Proofs.Origins
import ContractInterface.Proofs.Outcomes
import ContractInterface.Proofs.OutputPaths
import ContractInterface.Proofs.ParameterLists
import ContractInterface.Proofs.ParameterTypes
import ContractInterface.Proofs.Parens
import ContractInterface.Proofs.Reading
import ContractInterface.Proofs.Renderings
import ContractInterface.Proofs.RereadDescriptors
import ContractInterface.Proofs.RereadSignatures
import ContractInterface.Proofs.Results
import ContractInterface.Proofs.Segments
import ContractInterface.Proofs.SeparatedPieces
import ContractInterface.Proofs.SimultaneousSubstitution
import ContractInterface.Proofs.SourceLayout
import ContractInterface.Proofs.Spans
import ContractInterface.Proofs.StandardOutput
import ContractInterface.Proofs.StoredFiles
import ContractInterface.Proofs.Stripping
import ContractInterface.Proofs.StructMembers
import ContractInterface.Proofs.SubstitutedClauses
import ContractInterface.Proofs.Success
import ContractInterface.Proofs.Termination
import ContractInterface.Proofs.TypeParts
import ContractInterface.Proofs.UndefinedNames
import ContractInterface.Proofs.UnreadableFiles
import ContractInterface.Proofs.Validation
import ContractInterface.Proofs.Words
import ContractInterface.Proofs.WrittenHeaders
import ContractInterface.Proofs.WrittenParameters
import ContractInterface.Proofs.WrittenVariables
