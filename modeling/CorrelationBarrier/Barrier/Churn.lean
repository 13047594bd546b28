import CorrelationBarrier.Barrier.Threads

/-!
# Producers and pullers side by side

`Barrier.churn` lets producers and pullers work on one barrier at the same time, wave after wave: in a wave every producer
accepts one message and every puller pulls once, and all of them step in turn. When all messages have come out, one thread
pulls what may be left.
-/

namespace CorrelationBarrier

namespace Barrier

variable {K M : Type} [DecidableEq K] [BEq M]

/-- Runs operations side by side, each in a thread of its own, and answers what came of them. The steps of one operation
alone are bounded by `stepLimit`, and every round makes at least one. -/
def wave (env : Surroundings) (ops : List (Operation K M)) (b : Barrier K M) :
    List (Option (Answer K M)) × Barrier K M :=
  let m := ops.foldl (fun m op => m.start (b.actOf op)) b.toThreads
  let m := Threads.roundRobin env (ops.length * (stepLimit m + 20 * ops.length)) m
  (m.threads.map (·.answer?), ofThreads b.rules m)

/-- The message that an answer hands out. -/
def handedOut : Option (Answer K M) → Option M
  | some (.pulled (.ok m)) => m
  | _ => none

/-- Waves in which the producers accept the given messages and as many pullers as said pull. -/
def waves (pullers : Nat) : (time : Instant) → List (List M) → Barrier K M → List M × Barrier K M
  | _, [], b => ([], b)
  | time, ms :: rest, b =>
    let (answers, b) := b.wave { now := time } (ms.map .accept ++ List.replicate pullers (.pull .asListed))
    let (released, b) := waves pullers (time + 1) rest b
    (answers.filterMap handedOut ++ released, b)

/-- What came of producers and pullers side by side. -/
structure ChurnResult (K M : Type) where
  /-- The messages that the pullers got. -/
  released : List M
  /-- The messages that were left for the last thread. -/
  extra : List M
  barrier : Barrier K M

/-- Lets producers and pullers work side by side. The `i`-th list holds what the producers accept in their `i`-th wave. As
long as something is unmarked a wave of pulls hands out a message, so there are as many further waves as messages. -/
def churn (pullers : Nat) (batches : List (List M)) (b : Barrier K M) : ChurnResult K M :=
  let total := batches.flatten.length
  let (released, b) := b.waves pullers 0 (batches ++ List.replicate total [])
  let (extra, _, b) := b.drain (List.replicate (total + 1) ({ now := batches.length + total }, .asListed))
  ⟨released, extra, b⟩

end Barrier

end CorrelationBarrier
