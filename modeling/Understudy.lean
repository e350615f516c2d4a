import Understudy.File.Disk
import Understudy.Header.Encode
import Understudy.Main
import Understudy.Proofs.Text.Token
import Understudy.Proofs.Rule.RoundTrip
import Understudy.Proofs.Rule.WellFormed
import Understudy.Proofs.RuleBook.Rearranged
import Understudy.Proofs.RuleBook.Submissions
import Understudy.Proofs.CType.Canonical
import Understudy.Proofs.CType.Size
import Understudy.Proofs.CType.Meaning
import Understudy.Proofs.CType.Reference
import Understudy.Proofs.Classification.Decision
import Understudy.Proofs.Classification.Result
import Understudy.Proofs.Classification.WellFormed
import Understudy.Proofs.Classification.ByteCount
import Understudy.Proofs.Classification.Transparency
import Understudy.Proofs.Classification.Constness
import Understudy.Proofs.Mock.Correspondence
import Understudy.Proofs.Mock.MoreRules
import Understudy.Proofs.Json.RoundTrip
import Understudy.Proofs.Json.Natural
import Understudy.Proofs.Header.Collected
import Understudy.Proofs.Header.Form
import Understudy.Proofs.Header.RoundTrip
import Understudy.Proofs.Declaration.QualifiedName
import Understudy.Proofs.Catalog.Distinct
import Understudy.Proofs.Catalog.MockedOnce
import Understudy.Proofs.Catalog.Numbering
import Understudy.Proofs.Catalog.Rearranged
import Understudy.Proofs.Catalog.CompanionNames
import Understudy.Proofs.File.Store
import Understudy.Proofs.File.Disk
import Understudy.Proofs.File.Path
import Understudy.Proofs.Delivery.Staging
import Understudy.Proofs.Delivery.Commit
import Understudy.Proofs.Delivery.AllOrNone
import Understudy.Proofs.Delivery.Delivered
import Understudy.Proofs.Modifier.Meaning
import Understudy.Proofs.Declaration.Division
import Understudy.Proofs.RuleBook.OwnSpelling
import Understudy.Proofs.Header.Names
import Understudy.Proofs.Catalog.Conversions
import Understudy.Proofs.RuleBook.Addressed
import Understudy.Proofs.Modifier.Natural
import Understudy.Proofs.Classification.RawOutput
import Understudy.Proofs.CType.Unambiguous
import Understudy.Proofs.CType.Declared
import Understudy.Proofs.Text.Literal
import Understudy.Proofs.Mock.Head
import Understudy.Proofs.Mock.Scope
import Understudy.Proofs.Catalog.LegalNames
import Understudy.Proofs.Rule.TypeKey
