import CorrelationBarrier.Barrier.Churn
import CorrelationBarrier.LockTable.Script
import CorrelationBarrier.Poller.Timeline
import CorrelationBarrier.Scenario
import CorrelationBarrier.Proofs.History
import CorrelationBarrier.Proofs.Tokens
import CorrelationBarrier.Proofs.Exclusion
import CorrelationBarrier.Proofs.Identity
import CorrelationBarrier.Proofs.Barrier.Progress
import CorrelationBarrier.Proofs.Barrier.Calls
import CorrelationBarrier.Proofs.Barrier.Course
import CorrelationBarrier.Proofs.Barrier.Tracking
import CorrelationBarrier.Proofs.Barrier.Ledger
import CorrelationBarrier.Proofs.Barrier.Path
import CorrelationBarrier.Proofs.Barrier.Sections
import CorrelationBarrier.Proofs.Barrier.Serial
import CorrelationBarrier.Proofs.Barrier.Solo
import CorrelationBarrier.Proofs.Barrier.Draining
import CorrelationBarrier.Proofs.Barrier.Failure
import CorrelationBarrier.Proofs.Barrier.Rejection
import CorrelationBarrier.Proofs.Retries
import CorrelationBarrier.Proofs.Locks
import CorrelationBarrier.Proofs.Alone
import CorrelationBarrier.Proofs.Barrier.Waiting
import CorrelationBarrier.Proofs.Barrier.Accounts
import CorrelationBarrier.Proofs.Barrier.Policies
import CorrelationBarrier.Proofs.Barrier.FirstDrain
import CorrelationBarrier.Proofs.Barrier.Serving
import CorrelationBarrier.Proofs.Barrier.Modes
import CorrelationBarrier.Proofs.Barrier.Threshold
import CorrelationBarrier.Proofs.Barrier.Tour
import CorrelationBarrier.Proofs.Barrier.Sequences
import CorrelationBarrier.Proofs.Barrier.Survey
import CorrelationBarrier.Proofs.Poller.Delivery
import CorrelationBarrier.Proofs.Poller.Polls
import CorrelationBarrier.Proofs.Pipeline
import CorrelationBarrier.Proofs.Poller.Plans
import CorrelationBarrier.Proofs.Barrier.Verdicts
import CorrelationBarrier.Proofs.Barrier.Announcing
import CorrelationBarrier.Proofs.Poller.Cadence
import CorrelationBarrier.Proofs.Store.Effects
import CorrelationBarrier.Proofs.Store.Capacity
import CorrelationBarrier.Proofs.Store.Tenure
import CorrelationBarrier.Proofs.Barrier.Silence
