import EvidenceBraid.ConsistencyComplete
import EvidenceBraid.NodeConsistency
import EvidenceBraid.MembershipSound
import EvidenceBraid.MembershipComplete
import EvidenceBraid.LedgerChain
import EvidenceBraid.StorageProof
import EvidenceBraid.WorkflowIndependence
import EvidenceBraid.WorkflowChain
import EvidenceBraid.StoreOutcome
import EvidenceBraid.EpistemicProof
import EvidenceBraid.CaseStorageCodec
import EvidenceBraid.CaseOperations
import EvidenceBraid.CaseAgreement
import EvidenceBraid.CaseOnce
import EvidenceBraid.CaseVerification
import EvidenceBraid.ArchiveCanonical
import EvidenceBraid.ArtifactBundleSound
import EvidenceBraid.SupportedCaseSound
import EvidenceBraid.Decision
import EvidenceBraid.Replay
import EvidenceBraid.Scores
import EvidenceBraid.ComparisonMirror
import EvidenceBraid.LedgerComplete
import EvidenceBraid.MigrationProof
import EvidenceBraid.Cursor
import EvidenceBraid.Pages
import EvidenceBraid.CaseBytes
import EvidenceBraid.Collapse
import EvidenceBraid.Duality
import EvidenceBraid.Totality
import EvidenceBraid.RobustnessProof
import EvidenceBraid.CaseChain
import EvidenceBraid.CheckMeaning
import EvidenceBraid.ObservationRun
import EvidenceBraid.ServiceWire
import EvidenceBraid.ProofCodec
import EvidenceBraid.ReceiptNumbers
import EvidenceBraid.ReceiptWireProof
import EvidenceBraid.NodeMembershipProof
import EvidenceBraid.RateLimit
import EvidenceBraid.ArchiveView
import EvidenceBraid.HttpFraming
import EvidenceBraid.StagedOutput
import EvidenceBraid.LexicalDepth
import EvidenceBraid.WorkflowConstructors
import EvidenceBraid.SchemaDirectoryProof
import EvidenceBraid.WorkflowOnce
import EvidenceBraid.ServiceIsolation
