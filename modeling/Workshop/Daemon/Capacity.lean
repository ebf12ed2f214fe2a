import Workshop.Cron.Workplace
import Workshop.Jobs.Partition

/-!
# The capacity of both kinds of partitions

`WorkshopWorkplace::IsFull` compares with `==`, and `CronPartition::OnJob` starts a job without
asking `IsFull` at all.  Either is good enough because the switch `disabled_full` of the queue
follows the list of running jobs through every event, which the step lemmas of both partitions show.
-/

namespace Workshop.Daemon

open Workshop.Lib

/-- **Capacity.**  In every state a workshop partition and a cron partition can reach, there are at
most as many operators as configured, the queue is disabled as full exactly if the workplace is
full, and no job was claimed while the queue was not enabled. -/
theorem capacity_kept :
    (∀ (env : Jobs.WorkplaceEnv) (p : Jobs.WorkshopPartition)
        (tr : List (Jobs.WorkshopPartition × (ℤ × Jobs.PartitionEvent))),
      Run (Jobs.WorkshopPartition.step env) {} tr p →
        p.operators.length ≤ env.maxOperators ∧ p.queue.disabledFull = p.isFull env ∧
          ∀ c ∈ p.claims, c.2 = true) ∧
    ∀ (env : Cron.PartitionEnv) (p : Cron.CronPartition)
        (tr : List (Cron.CronPartition × (ℤ × Cron.PartitionEvent))),
      Run (Cron.CronPartition.step env) {} tr p →
        p.running.length ≤ env.cluster.concurrency env.name ∧ p.queue.disabledFull = p.isFull env ∧
          ∀ id enabled, .claim id enabled ∈ p.actions → enabled = true := by
  constructor
  · intro env p tr hrun
    have hcapacity := Jobs.withinCapacity_of_run hrun
    exact ⟨hcapacity.operators_le, hcapacity.disabledFull, hcapacity.claims⟩
  · intro env p tr hrun
    have hcapacity := Cron.withinCapacity_of_run hrun
    exact ⟨hcapacity.running_le, hcapacity.disabledFull, fun id enabled hclaim =>
      hcapacity.claims (.claim id enabled) hclaim⟩

/-- A workshop partition with one slot. -/
def oneOperator : Jobs.WorkplaceEnv :=
  { Jobs.fourOperators with maxOperators := 1, maxOperators_pos := by decide }

/-- The cron partition starts two jobs whose translation is pending. -/
def bothPending : List (ℤ × Cron.PartitionEvent) :=
  [(0, .setStateEnabled true), (0, .connect),
    (1, .claimTimer [.job (Cron.commandJob 1) (Cron.starts []),
      .job (Cron.commandJob 2) (Cron.starts [])])]

theorem capacity_kept_full :
    ((final (Jobs.WorkshopPartition.step oneOperator) {} (Jobs.threeRows.take 7)).map
        (fun p => (p.operators.length, p.claims)) = some (1, [(1, true)]) ∧
      ∀ p, final (Jobs.WorkshopPartition.step oneOperator) {} (Jobs.threeRows.take 7) = some p →
        p.queue.disabledFull = p.isFull oneOperator) ∧
    (final (Cron.CronPartition.step Cron.twoOperators) {} bothPending).map
        (fun p => p.running.length) = some 2 ∧
      ∀ p, final (Cron.CronPartition.step Cron.twoOperators) {} bothPending = some p →
        p.queue.disabledFull = p.isFull Cron.twoOperators :=
  ⟨⟨by decide +kernel, fun _ hp => (capacity_kept.1 _ _ _ (Run.of_final hp)).2.1⟩,
    by decide +kernel, fun _ hp => (capacity_kept.2 _ _ _ (Run.of_final hp)).2.1⟩

end Workshop.Daemon
