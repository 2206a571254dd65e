import Raftiq.Raft.Applying
import Raftiq.Raft.Reign

namespace Raftiq

/-! Where commit indexes come from. -/

namespace Outcome

variable {α β : Type} {node : RaftNode}

/-- The commit index stays where it is. -/
def KeepsCommit (outcome : Outcome α) (before : RaftNode) : Prop :=
  outcome.Ensures (fun after _ => after.commitIndex = before.commitIndex) fun _ => True

theorem KeepsCommit.andThen {outcome : Outcome α} {next : RaftNode → α → Outcome β}
    (first : outcome.KeepsCommit node) (second : ∀ middle result, (next middle result).KeepsCommit middle) :
    (outcome.andThen next).KeepsCommit node := by
  refine Ensures.andThen first fun middle result same => ?_
  exact (second middle result).mono (fun _ _ again => again.trans same) fun _ _ => trivial

end Outcome

namespace RaftNode

variable (node : RaftNode) (fault termFault otherFault : Fault)

theorem persistState_keepsCommit (state : PersistentState) : (node.persistState state fault).KeepsCommit node :=
  (node.persistState_frame fault state).mono (fun _ _ frame => frame.2.1) fun _ _ => trivial

theorem enterTerm_keepsCommit (term : ℕ) : (node.enterTerm term fault).KeepsCommit node := by
  refine (node.persistState_keepsCommit fault _).andThen fun middle durable => ?_
  cases durable with
  | false => rfl
  | true => rfl

theorem startElection_keepsCommit : (node.startElection fault).KeepsCommit node := by
  unfold startElection
  split
  · rfl
  · split
    · rfl
    · refine (node.persistState_keepsCommit fault _).andThen fun middle durable => ?_
      cases durable with
      | false => rfl
      | true => rfl

theorem considerVote_keepsCommit (args : RequestVoteArgs) : (node.considerVote args fault).KeepsCommit node := by
  unfold considerVote
  split
  · rfl
  · split
    · rfl
    · split
      · rfl
      · exact (node.persistState_keepsCommit fault _).andThen fun _ _ => rfl

theorem requestVote_keepsCommit (args : RequestVoteArgs) :
    (node.requestVote args termFault otherFault).KeepsCommit node := by
  unfold requestVote
  split
  · rfl
  · split
    · refine (node.enterTerm_keepsCommit termFault args.term).andThen fun middle durable => ?_
      split
      · exact middle.considerVote_keepsCommit otherFault args
      · rfl
    · exact node.considerVote_keepsCommit otherFault args

theorem handleVoteReply_keepsCommit (electionTerm : ℕ) (reply : RequestVoteReply) :
    (node.handleVoteReply electionTerm reply fault).KeepsCommit node := by
  unfold handleVoteReply
  split
  · refine (node.enterTerm_keepsCommit fault reply.term).andThen fun middle durable => ?_
    cases durable with
    | false => rfl
    | true => rfl
  · split
    · rfl
    · rfl

theorem tryBecomeLeader_keepsCommit : node.tryBecomeLeader.KeepsCommit node := by
  unfold tryBecomeLeader
  split
  · rfl
  · split
    · rfl
    · exact node.becomeLeaderLocked_frame.2.2.2.2.2.2.1

theorem pickCommitted_keepsCommit : (node.pickCommitted termFault otherFault).KeepsCommit node := by
  unfold pickCommitted
  split
  · rfl
  · split
    · rfl
    · split
      · rename_i entry _ _
        have configures : (node.applyConfigurationEntryLocked entry termFault otherFault).KeepsCommit node := by
          unfold applyConfigurationEntryLocked
          split
          · rfl
          · refine (node.persistState_keepsCommit termFault _).andThen fun middle durable => ?_
            split
            · rfl
            · split
              · exact middle.enterTerm_keepsCommit otherFault _
              · rfl
        refine configures.andThen fun middle applied => ?_
        cases applied with
        | false => rfl
        | true => rfl
      · rfl

theorem createSnapshot_keepsCommit (index : ℕ) (data : Bytes) :
    (node.createSnapshot index data termFault otherFault).KeepsCommit node := by
  unfold createSnapshot
  split
  · rfl
  · unfold persistAndCompactSnapshotLocked
    split
    · trivial
    · rfl
    · split
      · trivial
      · rfl
      · split
        · rfl
        · rfl

theorem installSnapshot_keepsCommit (args : InstallSnapshotArgs) :
    (node.installSnapshot args termFault otherFault).KeepsCommit node := by
  have persists : ∀ middle : RaftNode, (middle.persistInstall args otherFault).KeepsCommit middle := by
    intro middle
    unfold persistInstall
    dsimp only
    split
    · rfl
    · split
      · rfl
      · split
        · trivial
        · rfl
        · rfl
  unfold installSnapshot
  split
  · rfl
  · split
    · refine (node.enterTerm_keepsCommit termFault args.term).andThen fun middle durable => ?_
      split
      · exact persists middle
      · rfl
    · exact persists node

theorem handleReadResult_keepsCommit (read : PendingRead) (peerID : NodeID) (result : ProbeResult) :
    (node.handleReadResult read peerID result fault).KeepsCommit node := by
  unfold handleReadResult
  cases result with
  | failed => rfl
  | answered reply =>
      dsimp only
      split
      · exact (node.enterTerm_keepsCommit fault reply.term).andThen fun _ _ => rfl
      · split
        · rfl
        · split
          · rfl
          · rfl

theorem propose_refused {node after : RaftNode} {data : Bytes} {fault : Fault} {error : ProposeError}
    (refused : node.propose data fault = .done after (.error error)) : after.commitIndex = node.commitIndex := by
  unfold propose at refused
  split at refused
  · cases refused
    rfl
  · dsimp only at refused
    split at refused
    · cases refused
    · cases refused
      rfl
    · cases refused
      rfl
    · split at refused
      · cases refused
        rfl
      · cases refused

/-- A follower takes no more than the leader says. -/
theorem appendEntries_commit (args : AppendEntriesArgs) :
    (node.appendEntries args termFault otherFault).Ensures
      (fun after _ => after.commitIndex ≤ max node.commitIndex args.leaderCommit) fun _ => True := by
  have reconciles : ∀ middle : RaftNode,
      (middle.reconcileReplicatedEntriesLocked args.entries otherFault).KeepsCommit middle := by
    intro middle
    have publishes : ∀ (wal : WALStorage) (log : Log) (entries : List LogEntry),
        ({ middle with storage := wal }.publishEntries log entries).KeepsCommit middle := by
      intro wal log entries
      unfold publishEntries
      split
      · rfl
      · rfl
    unfold reconcileReplicatedEntriesLocked
    split
    · rfl
    · split
      · trivial
      · rfl
      · exact publishes _ _ _
    · split
      · trivial
      · rfl
      · exact publishes _ _ _
  have accepts : ∀ middle : RaftNode, (middle.acceptEntries args otherFault).Ensures
      (fun after _ => after.commitIndex ≤ max middle.commitIndex args.leaderCommit) fun _ => True := by
    intro middle
    unfold acceptEntries
    split
    · exact le_max_left _ _
    · refine Outcome.Ensures.andThen (reconciles { middle with role := .follower, leaderID := args.leaderID })
        fun after reconciled same => ?_
      cases reconciled with
      | error error => exact same.le.trans (le_max_left _ _)
      | ok _ =>
          change (if args.leaderCommit > after.commitIndex then
            if args.leaderCommit < after.log.lastIndex then args.leaderCommit else after.log.lastIndex
            else after.commitIndex) ≤ max middle.commitIndex args.leaderCommit
          have before : after.commitIndex = middle.commitIndex := same
          split
          · split
            · exact le_max_right _ _
            · omega
          · omega
  unfold appendEntries
  split
  · exact le_max_left _ _
  · split
    · refine Outcome.Ensures.andThen (node.enterTerm_keepsCommit termFault args.term)
        fun middle durable same => ?_
      split
      · exact same ▸ accepts middle
      · exact same.le.trans (le_max_left _ _)
    · exact accepts node

theorem finishInstall_commit (install : PendingInstall) :
    (node.finishInstall install fault).Ensures
      (fun after _ => after.commitIndex ≤ max node.commitIndex install.args.lastIncludedIndex) fun _ => True := by
  unfold finishInstall
  dsimp only
  split
  · trivial
  · exact le_max_left _ _
  · split
    · exact le_max_left _ _
    · exact le_rfl

end RaftNode

namespace Process

variable {process next : Process} {event : Event} {observations : List Observation}

theorem settle_commits {α : Type} {outcome : Outcome α}
    {observe : RaftNode → α → List Observation}
    (observes : ∀ after result, ∀ seen ∈ observeCommit process.node after, outcome = .done after result →
      seen ∈ observe after result)
    (settled : process.settle outcome observe = .running next observations) :
    next.node.commitIndex ≤ process.node.commitIndex ∨
      ∃ term log, .committed term next.node.commitIndex log ∈ observations := by
  obtain ⟨result, done, _, rfl⟩ := settle_running settled
  rcases Nat.lt_or_ge process.node.commitIndex next.node.commitIndex with raised | same
  · refine Or.inr ⟨next.node.persistent.currentTerm, next.node.log, observes next.node result _ ?_ done⟩
    rw [observeCommit, if_pos raised]
    exact List.mem_singleton.mpr rfl
  · exact Or.inl same

/-- A commit index that rises was raised on a leader, was received from one, or is that of a snapshot. -/
theorem step_commit (stepped : process.step event = some (.running next observations)) :
    next.node.commitIndex ≤ process.node.commitIndex ∨
      (∃ term log, .committed term next.node.commitIndex log ∈ observations) ∨
      (∃ args purpose termFault logFault, event = .receiveAppendEntries args purpose termFault logFault ∧
        next.node.commitIndex ≤ args.leaderCommit) ∨
      ∃ install fault, event = .finishInstall install fault ∧
        next.node.commitIndex ≤ install.args.lastIncludedIndex := by
  have keeps : ∀ {α : Type} {outcome : Outcome α}, outcome.KeepsCommit process.node →
      process.effect event = outcome.forget → next.node.commitIndex ≤ process.node.commitIndex := by
    intro α outcome keeps same
    have ensures := Outcome.Ensures.forget keeps
    rw [← same] at ensures
    exact (step_ensures stepped ensures).le
  cases event with
  | startElection fault => exact Or.inl (keeps (process.node.startElection_keepsCommit fault) rfl)
  | receiveRequestVote args termFault voteFault =>
      exact Or.inl (keeps (process.node.requestVote_keepsCommit termFault voteFault args) rfl)
  | receiveVoteReply args reply fault =>
      exact Or.inl (keeps (process.node.handleVoteReply_keepsCommit fault args.term reply) rfl)
  | tryBecomeLeader => exact Or.inl (keeps process.node.tryBecomeLeader_keepsCommit rfl)
  | propose data fault =>
      refine (settle_commits (fun after result seen raised done => ?_) (Option.some.inj stepped)).imp_right Or.inl
      cases result with
      | ok index => exact List.mem_append_right _ raised
      | error error =>
          have same := RaftNode.propose_refused done
          rw [observeCommit, if_neg (by omega)] at raised
          cases raised
  | receiveAppendReply peerID args reply fault | receiveInstallReply peerID args reply fault =>
      exact (settle_commits (fun _ _ _ raised _ => raised) (Option.some.inj stepped)).imp_right Or.inl
  | receiveAppendEntries args purpose termFault logFault =>
      have raised := step_ensures stepped (process.node.appendEntries_commit termFault logFault args).forget
      rcases le_max_iff.mp raised with same | told
      · exact Or.inl same
      · exact Or.inr (Or.inr (Or.inl ⟨args, purpose, termFault, logFault, rfl, told⟩))
  | pickCommitted stateFault leaveFault =>
      exact Or.inl (keeps (process.node.pickCommitted_keepsCommit stateFault leaveFault) rfl)
  | markApplied =>
      have same : (process.effect .markApplied).Ensures
          (fun after _ => after.commitIndex = process.node.commitIndex) fun _ => True := by
        simp only [effect]
        split
        · rfl
        · rfl
      exact Or.inl (step_ensures stepped same).le
  | createSnapshot index data saveFault compactFault =>
      exact Or.inl (keeps (process.node.createSnapshot_keepsCommit saveFault compactFault index data) rfl)
  | receiveInstallSnapshot args termFault saveFault =>
      exact Or.inl (keeps (process.node.installSnapshot_keepsCommit termFault saveFault args) rfl)
  | finishInstall install fault =>
      have raised := step_ensures stepped (process.node.finishInstall_commit fault install).forget
      rcases le_max_iff.mp raised with same | installed
      · exact Or.inl same
      · exact Or.inr (Or.inr (Or.inr ⟨install, fault, rfl, installed⟩))
  | receiveProbeResult read peerID result fault =>
      have same : (process.effect (.receiveProbeResult read peerID result fault)).Ensures
          (fun after _ => after.commitIndex = process.node.commitIndex) fun _ => True := by
        simp only [effect]
        split
        · exact (process.node.handleReadResult_keepsCommit fault _ peerID result).forget
        · rfl
      exact Or.inl (step_ensures stepped same).le
  | requestVotes | replicateTo peerID | sendApplied | sendInstallSnapshot peerID
  | restoreSnapshot install succeeds | beginRead read | probeRead read peerID | cancelRead read =>
      have same : (Outcome.done process.node ()).Ensures
          (fun after _ => after.commitIndex = process.node.commitIndex) fun _ => True := rfl
      exact Or.inl (step_ensures stepped same).le

end Process

end Raftiq
