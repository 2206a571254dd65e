import Raftiq.Cluster
import Raftiq.Raft.Shown

namespace Raftiq

namespace RaftNode

/-- A reply carries the term of the node that gives it. -/
theorem acceptEntries_term (node : RaftNode) (args : AppendEntriesArgs) (fault : Fault) :
    (node.acceptEntries args fault).Ensures (fun after reply => reply.term = after.persistent.currentTerm)
      (fun _ => True) := by
  unfold acceptEntries
  split
  · rfl
  · cases { node with role := .follower, leaderID := args.leaderID }.reconcileReplicatedEntriesLocked
      args.entries fault with
    | crashed wal => trivial
    | done middle reconciled =>
        cases reconciled with
        | error error => rfl
        | ok _ => rfl

theorem appendEntries_term (node : RaftNode) (args : AppendEntriesArgs) (termFault logFault : Fault) :
    (node.appendEntries args termFault logFault).Ensures
      (fun after reply => reply.term = after.persistent.currentTerm) (fun _ => True) := by
  unfold appendEntries
  split
  · rfl
  · split
    · cases node.enterTerm args.term termFault with
      | crashed wal => trivial
      | done middle durable =>
          rw [Outcome.andThen_done]
          split
          · exact middle.acceptEntries_term args logFault
          · rfl
    · exact node.acceptEntries_term args logFault

end RaftNode

namespace Process

variable {process next : Process} {event : Event} {observations : List Observation}

theorem settleRead_waiting {read other : ℕ} {progress : ReadProgress} {pending : PendingRead}
    (waits : (process.settleRead read progress).1.reads other = some pending) :
    process.reads other = some pending ∨ other = read ∧ progress = .waiting pending := by
  by_cases same : other = read
  · subst same
    cases progress with
    | waiting later =>
        simp only [settleRead, Function.update_self] at waits
        exact Or.inr ⟨rfl, congrArg _ (Option.some.inj waits)⟩
    | returned result =>
        simp [settleRead] at waits
  · cases progress with
    | waiting later =>
        simp only [settleRead, Function.update_of_ne same] at waits
        exact Or.inl waits
    | returned result =>
        simp only [settleRead, Function.update_of_ne same] at waits
        exact Or.inl waits

/-- A read that waits has waited before, or the step has taken it here. -/
theorem step_waiting (stepped : process.step event = some (.running next observations)) {read : ℕ}
    {pending : PendingRead} (waits : next.reads read = some pending) :
    process.reads read = some pending ∨ process.Advances next event read (.waiting pending) := by
  rcases (step_calls stepped).2.2 with same | ⟨other, rfl⟩ | ⟨other, peerID, result, fault, rfl⟩ | ⟨other, rfl⟩
  · exact Or.inl (same ▸ waits)
  · simp only [step] at stepped
    split at stepped
    · cases stepped
    · cases stepped
      rcases settleRead_waiting waits with before | ⟨rfl, begins⟩
      · exact Or.inl before
      · exact Or.inr (Or.inl ⟨rfl, settleRead_node read _, begins⟩)
  · simp only [step] at stepped
    split at stepped
    · cases stepped
    · rename_i earlier waited
      split at stepped
      · simp only [settleReadOutcome, Option.some.injEq] at stepped
        split at stepped
        · rename_i node progress handled
          cases stepped
          rcases settleRead_waiting waits with before | ⟨rfl, rfl⟩
          · exact Or.inl before
          · refine Or.inr (Or.inr ⟨earlier, peerID, result, fault, rfl, waited, ?_⟩)
            rw [handled, settleRead_node]
            rfl
        · cases stepped
      · cases stepped
  · simp only [step] at stepped
    split at stepped
    · cases stepped
    · cases stepped
      by_cases same : read = other
      · simp [same] at waits
      · simp only [Function.update_of_ne same] at waits
        exact Or.inl waits

/-- `ReadIndex` returns no index that is not committed. -/
theorem step_readReturned (stepped : process.step event = some (.running next observations)) {read index : ℕ}
    (returned : .readReturned read (.ok index) ∈ observations) : index ≤ process.node.commitIndex := by
  rcases step_shows stepped _ returned with ⟨_, _, began⟩ | ⟨pending, peerID, result, fault, _, _, handled⟩
  · rcases process.node.beginReadIndex_cases with ⟨error, failed⟩ | ⟨_, _, ⟨alone, _⟩ | waits⟩
    · cases failed.symm.trans began
    · cases alone.symm.trans began
      exact le_rfl
    · cases waits.symm.trans began
  · obtain ⟨_, _, rfl, _, _⟩ := RaftNode.handleReadResult_ok handled
    exact min_le_left _ _

end Process

end Raftiq
