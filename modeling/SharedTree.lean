import SharedTree.CommandLine.Workspace
import SharedTree.Main
import SharedTree.Proofs.Engine.Access
import SharedTree.Proofs.Engine.Careful
import SharedTree.Proofs.Engine.Completion
import SharedTree.Proofs.Engine.Creations
import SharedTree.Proofs.Engine.Deletions
import SharedTree.Proofs.Engine.Independence
import SharedTree.Proofs.Engine.ItemAuthority
import SharedTree.Proofs.Engine.ItemEvents
import SharedTree.Proofs.Engine.Modes
import SharedTree.Proofs.Engine.Redundant
import SharedTree.Proofs.Engine.Removals
import SharedTree.Proofs.Engine.Replicas
import SharedTree.Proofs.Engine.Resumption
import SharedTree.Proofs.Engine.Revocations
import SharedTree.Proofs.Engine.Transplants
import SharedTree.Proofs.Engine.TreeReads
import SharedTree.Proofs.Journal.Acceptance
import SharedTree.Proofs.Journal.Acknowledged
import SharedTree.Proofs.Journal.Damage
import SharedTree.Proofs.Journal.FrameRoundTrip
import SharedTree.Proofs.Journal.Opening
import SharedTree.Proofs.Path.Places
import SharedTree.Proofs.Path.Rebase
import SharedTree.Proofs.Store.Crash
import SharedTree.Proofs.Store.Failures
import SharedTree.Proofs.Store.Savepoints
import SharedTree.Proofs.Transaction.Journaled
import SharedTree.Proofs.Transaction.Scans
