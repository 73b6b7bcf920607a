import StudyArchive.Config.Reading
import StudyArchive.Document.Decode
import StudyArchive.Document.Identity
import StudyArchive.Document.Json
import StudyArchive.Document.Outline
import StudyArchive.Study
import StudyArchive.Proofs.Path.Text
import StudyArchive.Proofs.Matrix.Buffer
import StudyArchive.Proofs.Codec.Reading
import StudyArchive.Proofs.Datum.PrefixCode
import StudyArchive.Proofs.Dataset.LastWritten
import StudyArchive.Proofs.Log.Changed
import StudyArchive.Proofs.Log.Tiling
import StudyArchive.Proofs.Container.Commit
import StudyArchive.Proofs.Container.InPlace
import StudyArchive.Proofs.Container.Logged
import StudyArchive.Proofs.Container.Recovery
import StudyArchive.Proofs.Container.Opening
import StudyArchive.Proofs.Container.Refused
import StudyArchive.Proofs.Archive.Attaching
import StudyArchive.Proofs.Archive.Lines
import StudyArchive.Proofs.Archive.RowByRow
import StudyArchive.Proofs.Archive.RowHistory
import StudyArchive.Proofs.Archive.Sharing
import StudyArchive.Proofs.Archive.Reads
import StudyArchive.Proofs.Archive.Throughout
import StudyArchive.Proofs.Evaluation.Accounts
import StudyArchive.Proofs.Evaluation.Alignment
import StudyArchive.Proofs.Evaluation.Arrivals
import StudyArchive.Proofs.Evaluation.Gradients
import StudyArchive.Proofs.Evaluation.Labelled
import StudyArchive.Proofs.Evaluation.Neighbours
import StudyArchive.Proofs.Evaluation.Regained
import StudyArchive.Proofs.Evaluation.Sessions
import StudyArchive.Proofs.Evaluation.Warnings
import StudyArchive.Proofs.Evaluation.Whole
import StudyArchive.Proofs.Parameters.Storing
import StudyArchive.Proofs.Results.ByParts
import StudyArchive.Proofs.Results.Headings
import StudyArchive.Proofs.Results.Insertions
