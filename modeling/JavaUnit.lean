import JavaUnit.Analysis
import JavaUnit.BuilderCode
import JavaUnit.Draft.Class
import JavaUnit.Proofs.AnalysisOutcome
import JavaUnit.Proofs.AnnotationSites
import JavaUnit.Proofs.AnnotationText
import JavaUnit.Proofs.Attaching
import JavaUnit.Proofs.BlockBodies
import JavaUnit.Proofs.CommentAccounting
import JavaUnit.Proofs.CommentRoundTrip
import JavaUnit.Proofs.Copies
import JavaUnit.Proofs.FailureSpans
import JavaUnit.Proofs.FileText
import JavaUnit.Proofs.FrozenSites
import JavaUnit.Proofs.LeadOrder
import JavaUnit.Proofs.Lexemes
import JavaUnit.Proofs.Lossless
import JavaUnit.Proofs.ModifierReports
import JavaUnit.Proofs.NameText
import JavaUnit.Proofs.Production
import JavaUnit.Proofs.Progress
import JavaUnit.Proofs.RawText
import JavaUnit.Proofs.Unclosed
import JavaUnit.Proofs.UnitText
