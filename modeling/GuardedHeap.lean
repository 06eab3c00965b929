import GuardedHeap.Script.Query
import GuardedHeap.Proofs.Isolation
import GuardedHeap.Proofs.Audit
import GuardedHeap.Proofs.Detection
import GuardedHeap.Proofs.Layouts
import GuardedHeap.Proofs.Outcome
import GuardedHeap.Proofs.Reentry
import GuardedHeap.Proofs.Attribution
import GuardedHeap.Proofs.Residue
import GuardedHeap.Proofs.Recognition
import GuardedHeap.Proofs.Traversal
import GuardedHeap.Proofs.Relinking
import GuardedHeap.Proofs.Oversight
import GuardedHeap.Proofs.Overflow
import GuardedHeap.Proofs.Sufficiency
import GuardedHeap.Proofs.Shortage
import GuardedHeap.Proofs.Bounds
import GuardedHeap.Proofs.Reversal
