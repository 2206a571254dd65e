import Raftiq.Raft.Observed
import Raftiq.Raft.TermOrder

namespace Raftiq

namespace RaftNode

/-- A node that leads after a step led before it, in the same term, and has not lowered its
commit index. -/
def Reigns (before after : RaftNode) : Prop :=
  after.role = .leader → before.role = .leader ∧
    after.persistent.currentTerm = before.persistent.currentTerm ∧ before.commitIndex ≤ after.commitIndex

variable {before middle after : RaftNode}

theorem Reigns.refl (node : RaftNode) : node.Reigns node :=
  fun leads => ⟨leads, rfl, le_rfl⟩

theorem Reigns.trans (first : before.Reigns middle) (second : middle.Reigns after) : before.Reigns after := by
  intro leads
  obtain ⟨led, term, commit⟩ := second leads
  obtain ⟨ledBefore, termBefore, commitBefore⟩ := first led
  exact ⟨ledBefore, term.trans termBefore, commitBefore.trans commit⟩

theorem reigns_of_follower (follower : after.role = .follower) : before.Reigns after :=
  fun leads => nomatch follower.symm.trans leads

theorem reigns_advanceCommitIndexLocked (node : RaftNode) : node.Reigns node.advanceCommitIndexLocked := by
  intro leads
  refine ⟨leads, rfl, ?_⟩
  rcases node.advanceCommitIndexLocked_cases with same | ⟨_, above, _⟩
  · exact same.ge
  · exact above.le

section Sections

variable (node : RaftNode) (fault termFault otherFault : Fault)

theorem persistState_frame (state : PersistentState) :
    (node.persistState state fault).Ensures
      (fun after durable => after.role = node.role ∧ after.commitIndex = node.commitIndex ∧
        after.persistent = if durable then state else node.persistent) (fun _ => True) := by
  unfold persistState
  cases node.storage.writeSync (WALStorage.saveState state) fault with
  | ok wal => exact ⟨rfl, rfl, rfl⟩
  | failed error wal => exact ⟨rfl, rfl, rfl⟩
  | crashed wal => trivial

/-- A node that has not been able to save a state is where it was. -/
theorem reigns_of_unsaved {state : PersistentState}
    (frame : after.role = before.role ∧ after.commitIndex = before.commitIndex ∧
      after.persistent = if false then state else before.persistent) : before.Reigns after := by
  obtain ⟨role, commit, persistent⟩ := frame
  exact fun leads => ⟨role.symm.trans leads, congrArg _ persistent, commit.ge⟩

theorem enterTerm_reigns (term : ℕ) :
    (node.enterTerm term fault).Ensures (fun after _ => node.Reigns after) (fun _ => True) := by
  refine (node.persistState_frame fault _).andThen fun middle durable frame => ?_
  cases durable with
  | false => exact reigns_of_unsaved frame
  | true => exact reigns_of_follower rfl

theorem startElection_reigns :
    (node.startElection fault).Ensures (fun after _ => node.Reigns after) (fun _ => True) := by
  unfold startElection
  split
  · exact .refl node
  · split
    · exact .refl node
    · refine (node.persistState_frame fault _).andThen fun middle durable frame => ?_
      cases durable with
      | false => exact reigns_of_unsaved frame
      | true => exact fun leads => nomatch leads

theorem considerVote_reigns (args : RequestVoteArgs) :
    (node.considerVote args fault).Ensures (fun after _ => node.Reigns after) (fun _ => True) := by
  unfold considerVote
  split
  · exact .refl node
  · split
    · exact .refl node
    · split
      · exact .refl node
      · refine (node.persistState_frame fault _).andThen fun middle durable frame => ?_
        obtain ⟨role, commit, persistent⟩ := frame
        refine fun leads => ⟨role.symm.trans leads, ?_, commit.ge⟩
        cases durable with
        | false => rw [persistent]; rfl
        | true => rw [persistent]; rfl

theorem requestVote_reigns (args : RequestVoteArgs) :
    (node.requestVote args termFault otherFault).Ensures (fun after _ => node.Reigns after)
      (fun _ => True) := by
  unfold requestVote
  split
  · exact .refl node
  · split
    · refine (node.enterTerm_reigns termFault args.term).andThen fun middle durable first => ?_
      cases durable with
      | false => exact first
      | true => exact (middle.considerVote_reigns otherFault args).mono (fun _ _ => first.trans) fun _ _ => trivial
    · exact node.considerVote_reigns otherFault args

theorem handleVoteReply_reigns (electionTerm : ℕ) (reply : RequestVoteReply) :
    (node.handleVoteReply electionTerm reply fault).Ensures (fun after _ => node.Reigns after)
      (fun _ => True) := by
  unfold handleVoteReply
  split
  · refine (node.enterTerm_reigns fault reply.term).andThen fun middle durable first => ?_
    cases durable with
    | false => exact first
    | true => exact first
  · split
    · exact .refl node
    · exact .refl node

theorem propose_reigns (data : Bytes) :
    (node.propose data fault).Ensures (fun after _ => node.Reigns after) (fun _ => True) := by
  unfold propose
  split
  · exact .refl node
  · dsimp only
    split
    · trivial
    · exact reigns_of_follower rfl
    · exact .refl node
    · split
      · exact .refl node
      · exact reigns_advanceCommitIndexLocked _

theorem acceptEntries_reigns (args : AppendEntriesArgs) :
    (node.acceptEntries args fault).Ensures (fun after _ => node.Reigns after) (fun _ => True) := by
  unfold acceptEntries
  split
  · exact .refl node
  · have reconciled := { node with role := .follower, leaderID := args.leaderID
      }.reconcileReplicatedEntriesLocked_ensures args.entries fault
    refine (reconciled.mono (fun _ _ kept => kept) fun _ _ => trivial).andThen fun middle result kept => ?_
    have follower : middle.role = .follower := kept.role.elim (fun follower => follower) And.left
    cases result with
    | error error => exact reigns_of_follower follower
    | ok _ => exact reigns_of_follower follower

theorem appendEntries_reigns (args : AppendEntriesArgs) :
    (node.appendEntries args termFault otherFault).Ensures (fun after _ => node.Reigns after)
      (fun _ => True) := by
  unfold appendEntries
  split
  · exact .refl node
  · split
    · refine (node.enterTerm_reigns termFault args.term).andThen fun middle durable first => ?_
      cases durable with
      | false => exact first
      | true =>
          exact (middle.acceptEntries_reigns otherFault args).mono (fun _ _ => first.trans) fun _ _ => trivial
    · exact node.acceptEntries_reigns otherFault args

theorem handleAppendEntriesReply_reigns (peerID : NodeID) (args : AppendEntriesArgs)
    (reply : AppendEntriesReply) :
    (node.handleAppendEntriesReply peerID args reply fault).Ensures (fun after _ => node.Reigns after)
      (fun _ => True) := by
  unfold handleAppendEntriesReply
  split
  · exact (node.enterTerm_reigns fault reply.term).andThen fun _ _ first => first
  · split
    · exact .refl node
    · split
      · exact .refl node
      · split
        · exact .refl node
        · split
          · exact .refl node
          · exact reigns_advanceCommitIndexLocked _

theorem applyConfigurationEntryLocked_reigns (entry : LogEntry) :
    (node.applyConfigurationEntryLocked entry termFault otherFault).Ensures
      (fun after _ => node.Reigns after) (fun _ => True) := by
  unfold applyConfigurationEntryLocked
  split
  · exact .refl node
  · refine (node.persistState_frame termFault _).andThen fun middle durable frame => ?_
    cases durable with
    | false => exact reigns_of_unsaved frame
    | true =>
        obtain ⟨role, commit, persistent⟩ := frame
        have first : node.Reigns middle := by
          refine fun leads => ⟨role.symm.trans leads, ?_, commit.ge⟩
          rw [persistent]; rfl
        simp only [not_true_eq_false, ↓reduceIte]
        split
        · exact (middle.enterTerm_reigns otherFault _).mono (fun _ _ => first.trans) fun _ _ => trivial
        · exact first

theorem pickCommitted_reigns :
    (node.pickCommitted termFault otherFault).Ensures (fun after _ => node.Reigns after) (fun _ => True) := by
  unfold pickCommitted
  split
  · exact .refl node
  · split
    · exact .refl node
    · split
      · refine (node.applyConfigurationEntryLocked_reigns termFault otherFault _).andThen
          fun middle applied first => ?_
        cases applied with
        | false => exact first
        | true => exact first
      · exact .refl node

theorem createSnapshot_reigns (index : ℕ) (data : Bytes) :
    (node.createSnapshot index data termFault otherFault).Ensures (fun after _ => node.Reigns after)
      (fun _ => True) := by
  unfold createSnapshot
  split
  · exact .refl node
  · unfold persistAndCompactSnapshotLocked
    split
    · trivial
    · exact .refl node
    · split
      · trivial
      · exact .refl node
      · split
        · exact .refl node
        · exact .refl node

theorem persistInstall_reigns (args : InstallSnapshotArgs) :
    (node.persistInstall args fault).Ensures (fun after _ => node.Reigns after) (fun _ => True) := by
  unfold persistInstall
  dsimp only
  split
  · exact reigns_of_follower rfl
  · split
    · exact reigns_of_follower rfl
    · split
      · trivial
      · exact reigns_of_follower rfl
      · exact reigns_of_follower rfl

theorem installSnapshot_reigns (args : InstallSnapshotArgs) :
    (node.installSnapshot args termFault otherFault).Ensures (fun after _ => node.Reigns after)
      (fun _ => True) := by
  unfold installSnapshot
  split
  · exact .refl node
  · split
    · refine (node.enterTerm_reigns termFault args.term).andThen fun middle durable first => ?_
      cases durable with
      | false => exact first
      | true =>
          exact (middle.persistInstall_reigns otherFault args).mono (fun _ _ => first.trans) fun _ _ => trivial
    · exact node.persistInstall_reigns otherFault args

theorem finishInstall_reigns (install : PendingInstall) :
    (node.finishInstall install fault).Ensures (fun after _ => node.Reigns after) (fun _ => True) := by
  unfold finishInstall
  dsimp only
  split
  · trivial
  · exact .refl node
  · split
    · exact .refl node
    · exact fun leads => ⟨leads, rfl, le_max_left _ _⟩

theorem handleInstallSnapshotReply_reigns (peerID : NodeID) (args : InstallSnapshotArgs)
    (reply : InstallSnapshotReply) :
    (node.handleInstallSnapshotReply peerID args reply fault).Ensures (fun after _ => node.Reigns after)
      (fun _ => True) := by
  unfold handleInstallSnapshotReply
  split
  · exact (node.enterTerm_reigns fault reply.term).andThen fun _ _ first => first
  · split
    · exact .refl node
    · split
      · exact .refl node
      · split
        · exact .refl node
        · exact reigns_advanceCommitIndexLocked _

theorem handleReadResult_reigns (read : PendingRead) (peerID : NodeID) (result : ProbeResult) :
    (node.handleReadResult read peerID result fault).Ensures (fun after _ => node.Reigns after)
      (fun _ => True) := by
  unfold handleReadResult
  cases result with
  | failed => exact .refl node
  | answered reply =>
      dsimp only
      split
      · exact (node.enterTerm_reigns fault reply.term).andThen fun _ _ first => first
      · split
        · exact .refl node
        · split
          · exact .refl node
          · exact .refl node

end Sections

end RaftNode

namespace Process

variable {process next : Process} {event : Event} {observations : List Observation}

/-- Only an election makes a node a leader. -/
theorem step_reigns (stepped : process.step event = some (.running next observations)) :
    event = .tryBecomeLeader ∨ process.node.Reigns next.node := by
  have reigns : event = .tryBecomeLeader ∨ (process.effect event).Ensures
      (fun after _ => process.node.Reigns after) (fun _ => True) := by
    cases event with
    | tryBecomeLeader => exact Or.inl rfl
    | startElection fault => exact Or.inr (process.node.startElection_reigns fault).forget
    | receiveRequestVote args termFault voteFault =>
        exact Or.inr (process.node.requestVote_reigns termFault voteFault args).forget
    | receiveVoteReply args reply fault =>
        exact Or.inr (process.node.handleVoteReply_reigns fault args.term reply).forget
    | propose data fault => exact Or.inr (process.node.propose_reigns fault data).forget
    | receiveAppendEntries args purpose termFault logFault =>
        exact Or.inr (process.node.appendEntries_reigns termFault logFault args).forget
    | receiveAppendReply peerID args reply fault =>
        exact Or.inr (process.node.handleAppendEntriesReply_reigns fault peerID args reply).forget
    | pickCommitted stateFault leaveFault =>
        exact Or.inr (process.node.pickCommitted_reigns stateFault leaveFault).forget
    | createSnapshot index data saveFault compactFault =>
        exact Or.inr (process.node.createSnapshot_reigns saveFault compactFault index data).forget
    | receiveInstallSnapshot args termFault saveFault =>
        exact Or.inr (process.node.installSnapshot_reigns termFault saveFault args).forget
    | finishInstall install fault => exact Or.inr (process.node.finishInstall_reigns fault install).forget
    | receiveInstallReply peerID args reply fault =>
        exact Or.inr (process.node.handleInstallSnapshotReply_reigns fault peerID args reply).forget
    | markApplied =>
        simp only [effect]
        split
        · exact Or.inr (.refl process.node)
        · exact Or.inr (.refl process.node)
    | receiveProbeResult read peerID result fault =>
        simp only [effect]
        split
        · exact Or.inr (process.node.handleReadResult_reigns fault _ peerID result).forget
        · exact Or.inr (.refl process.node)
    | requestVotes | replicateTo peerID | sendApplied | sendInstallSnapshot peerID
    | restoreSnapshot install succeeds | beginRead read | probeRead read peerID | cancelRead read =>
        exact Or.inr (.refl process.node)
  exact reigns.imp_right (step_ensures stepped)

/-- A node that leads after a step stood or led before it, in the same term. -/
theorem step_leader (stepped : process.step event = some (.running next observations))
    (leads : next.node.role = .leader) :
    process.node.role ≠ .follower ∧
      next.node.persistent.currentTerm = process.node.persistent.currentTerm ∧
      process.node.commitIndex ≤ next.node.commitIndex := by
  rcases step_reigns stepped with rfl | reigns
  · obtain ⟨result, elected, _⟩ := settle_running (Option.some.inj stepped)
    unfold RaftNode.tryBecomeLeader at elected
    split at elected
    · rw [(Outcome.done.inj elected).1]
      exact ⟨by simp [leads], rfl, le_rfl⟩
    · rename_i stands
      split at elected
      · rw [(Outcome.done.inj elected).1]
        exact ⟨by simp [leads], rfl, le_rfl⟩
      · obtain ⟨_, persistent, _, _, _, _, commit, _⟩ := process.node.becomeLeaderLocked_frame
        have same : process.node.becomeLeaderLocked = next.node := (Outcome.done.inj elected).1
        rw [← same, persistent, commit]
        exact ⟨by simp [not_not.mp stands], rfl, le_rfl⟩
  · obtain ⟨led, term, commit⟩ := reigns leads
    exact ⟨by simp [led], term, commit⟩

end Process

end Raftiq
