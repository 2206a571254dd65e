import Raftiq.Raft.Bootstrap

namespace Raftiq

namespace RaftNode

/-- A section that touches neither the log nor what has been applied of it. -/
structure ApplyFrame (before after : RaftNode) : Prop where
  applied : after.lastApplied = before.lastApplied
  membership : after.persistent.membership = before.persistent.membership
  log : after.log = before.log

variable {before middle after : RaftNode}

theorem ApplyFrame.refl (node : RaftNode) : node.ApplyFrame node :=
  ⟨rfl, rfl, rfl⟩

theorem ApplyFrame.trans (first : before.ApplyFrame middle) (second : middle.ApplyFrame after) :
    before.ApplyFrame after :=
  ⟨second.applied.trans first.applied, second.membership.trans first.membership, second.log.trans first.log⟩

/-- Such a section does not lower the commit index either. -/
structure CommitFrame (before after : RaftNode) : Prop extends before.ApplyFrame after where
  commit : before.commitIndex ≤ after.commitIndex

theorem CommitFrame.refl (node : RaftNode) : node.CommitFrame node :=
  ⟨.refl node, le_rfl⟩

theorem CommitFrame.trans (first : before.CommitFrame middle) (second : middle.CommitFrame after) :
    before.CommitFrame after :=
  ⟨first.toApplyFrame.trans second.toApplyFrame, first.commit.trans second.commit⟩

theorem commitFrame_advanceCommitIndexLocked (node : RaftNode) :
    node.CommitFrame node.advanceCommitIndexLocked := by
  refine ⟨⟨rfl, rfl, rfl⟩, ?_⟩
  rcases node.advanceCommitIndexLocked_cases with same | ⟨_, above, _⟩
  · exact same.ge
  · exact above.le

end RaftNode

namespace Outcome

variable {α β : Type} {node : RaftNode}

def AppliesNothing (outcome : Outcome α) (before : RaftNode) : Prop :=
  outcome.Ensures (fun after _ => before.ApplyFrame after) fun _ => True

def Frames (outcome : Outcome α) (before : RaftNode) : Prop :=
  outcome.Ensures (fun after _ => before.CommitFrame after) fun _ => True

theorem Frames.andThen {outcome : Outcome α} {next : RaftNode → α → Outcome β}
    (first : outcome.Frames node) (second : ∀ middle result, (next middle result).Frames middle) :
    (outcome.andThen next).Frames node := by
  refine Ensures.andThen first fun middle result frame => ?_
  exact (second middle result).mono (fun _ _ => frame.trans) fun _ _ => trivial

theorem Frames.appliesNothing {outcome : Outcome α} (frames : outcome.Frames node) :
    outcome.AppliesNothing node :=
  frames.mono (fun _ _ frame => frame.toApplyFrame) fun _ _ => trivial

end Outcome

namespace RaftNode

variable (node : RaftNode) (fault termFault otherFault : Fault)

theorem applies_refl {α : Type} (result : α) : (Outcome.done node result).Frames node :=
  CommitFrame.refl node

theorem applies_frame {α : Type} {after : RaftNode} (result : α) (applied : after.lastApplied = node.lastApplied)
    (persistent : after.persistent = node.persistent) (log : after.log = node.log)
    (commit : after.commitIndex = node.commitIndex) : (Outcome.done after result).Frames node :=
  ⟨⟨applied, congrArg _ persistent, log⟩, commit.ge⟩

theorem applies_advance {α : Type} {after : RaftNode} (result : α) (frame : node.CommitFrame after) :
    (Outcome.done after.advanceCommitIndexLocked result).Frames node :=
  frame.trans (commitFrame_advanceCommitIndexLocked after)

theorem persistState_applies {state : PersistentState} (same : state.membership = node.persistent.membership) :
    (node.persistState state fault).Frames node := by
  unfold persistState
  cases node.storage.writeSync (WALStorage.saveState state) fault with
  | ok wal => exact ⟨⟨rfl, same, rfl⟩, le_rfl⟩
  | failed error wal => exact ⟨⟨rfl, rfl, rfl⟩, le_rfl⟩
  | crashed wal => trivial

theorem enterTerm_applies (term : ℕ) : (node.enterTerm term fault).Frames node := by
  apply Outcome.Frames.andThen
  · exact node.persistState_applies fault rfl
  · intro middle durable
    split
    · exact middle.applies_frame _ rfl rfl rfl rfl
    · exact middle.applies_refl _

theorem startElection_applies : (node.startElection fault).Frames node := by
  unfold startElection
  split
  · exact node.applies_refl _
  · split
    · exact node.applies_refl _
    · apply Outcome.Frames.andThen
      · exact node.persistState_applies fault rfl
      · intro middle durable
        split
        · exact middle.applies_frame _ rfl rfl rfl rfl
        · exact middle.applies_refl _

theorem considerVote_applies (args : RequestVoteArgs) :
    (node.considerVote args fault).Frames node := by
  unfold considerVote
  split
  · exact node.applies_refl _
  · split
    · exact node.applies_refl _
    · split
      · exact node.applies_refl _
      · apply Outcome.Frames.andThen
        · exact node.persistState_applies fault rfl
        · exact fun middle durable => middle.applies_refl _

theorem requestVote_applies (args : RequestVoteArgs) :
    (node.requestVote args termFault otherFault).Frames node := by
  unfold requestVote
  split
  · exact node.applies_refl _
  · split
    · refine (node.enterTerm_applies termFault args.term).andThen fun middle durable => ?_
      split
      · exact middle.considerVote_applies otherFault args
      · exact middle.applies_refl _
    · exact node.considerVote_applies otherFault args

theorem handleVoteReply_applies (electionTerm : ℕ) (reply : RequestVoteReply) :
    (node.handleVoteReply electionTerm reply fault).Frames node := by
  unfold handleVoteReply
  split
  · refine (node.enterTerm_applies fault reply.term).andThen fun middle durable => ?_
    split
    · exact middle.applies_frame _ rfl rfl rfl rfl
    · exact middle.applies_refl _
  · split
    · exact node.applies_frame _ rfl rfl rfl rfl
    · exact node.applies_refl _

theorem tryBecomeLeader_applies : node.tryBecomeLeader.Frames node := by
  unfold tryBecomeLeader
  split
  · exact node.applies_refl _
  · split
    · exact node.applies_refl _
    · obtain ⟨_, persistent, _, _, log, _, commit, applied, _⟩ := node.becomeLeaderLocked_frame
      exact node.applies_frame _ applied persistent log commit

theorem handleAppendEntriesReply_applies (peerID : NodeID) (args : AppendEntriesArgs)
    (reply : AppendEntriesReply) :
    (node.handleAppendEntriesReply peerID args reply fault).Frames node := by
  unfold handleAppendEntriesReply
  split
  · exact (node.enterTerm_applies fault reply.term).andThen fun middle durable => middle.applies_refl _
  · split
    · exact node.applies_refl _
    · split
      · exact node.applies_refl _
      · split
        · exact node.applies_frame _ rfl rfl rfl rfl
        · split
          · exact node.applies_refl _
          · exact node.applies_advance _ ⟨⟨rfl, rfl, rfl⟩, le_rfl⟩

theorem persistInstall_applies (args : InstallSnapshotArgs) :
    (node.persistInstall args fault).Frames node := by
  unfold persistInstall
  dsimp only
  split
  · exact node.applies_frame _ rfl rfl rfl rfl
  · split
    · exact node.applies_frame _ rfl rfl rfl rfl
    · split
      · trivial
      · exact node.applies_frame _ rfl rfl rfl rfl
      · exact node.applies_frame _ rfl rfl rfl rfl

theorem installSnapshot_applies (args : InstallSnapshotArgs) :
    (node.installSnapshot args termFault otherFault).Frames node := by
  unfold installSnapshot
  split
  · exact node.applies_refl _
  · split
    · refine (node.enterTerm_applies termFault args.term).andThen fun middle durable => ?_
      split
      · exact middle.persistInstall_applies otherFault args
      · exact middle.applies_refl _
    · exact node.persistInstall_applies otherFault args

theorem handleInstallSnapshotReply_applies (peerID : NodeID) (args : InstallSnapshotArgs)
    (reply : InstallSnapshotReply) :
    (node.handleInstallSnapshotReply peerID args reply fault).Frames node := by
  unfold handleInstallSnapshotReply
  split
  · exact (node.enterTerm_applies fault reply.term).andThen fun middle durable => middle.applies_refl _
  · split
    · exact node.applies_refl _
    · split
      · exact node.applies_refl _
      · split
        · exact node.applies_refl _
        · exact node.applies_advance _ ⟨⟨rfl, rfl, rfl⟩, le_rfl⟩

theorem handleReadResult_applies (read : PendingRead) (peerID : NodeID) (result : ProbeResult) :
    (node.handleReadResult read peerID result fault).Frames node := by
  unfold handleReadResult
  cases result with
  | failed => exact node.applies_refl _
  | answered reply =>
      dsimp only
      split
      · exact (node.enterTerm_applies fault reply.term).andThen fun middle durable => middle.applies_refl _
      · split
        · exact node.applies_refl _
        · split
          · exact node.applies_refl _
          · exact node.applies_refl _

/-! Sections that change the membership, the log, or apply an entry. -/

theorem bootstrapMembership_applies :
    (node.bootstrapMembership fault).Ensures (fun after _ => after.lastApplied = node.lastApplied)
      (fun _ => True) := by
  unfold bootstrapMembership
  split
  · rfl
  · split
    · rfl
    · refine Outcome.Ensures.andThen (persistState_applies _ fault rfl) fun middle durable frame => ?_
      split
      · exact frame.applied
      · exact frame.applied

/-- What a proposal leaves behind. -/
def Proposed (data : Bytes) (after : RaftNode) : Except ProposeError ℕ → Prop
  | .error _ => after.log = node.log
  | .ok index => index = node.log.lastIndex + 1 ∧
      node.log.append ⟨index, node.persistent.currentTerm, data⟩ = .ok after.log

theorem propose_applies (data : Bytes) :
    (node.propose data fault).Ensures
      (fun after result => after.lastApplied = node.lastApplied ∧
        after.persistent.membership = node.persistent.membership ∧ node.Proposed data after result)
      (fun _ => True) := by
  unfold propose
  split
  · exact ⟨rfl, rfl, rfl⟩
  · dsimp only
    split
    · trivial
    · exact ⟨rfl, rfl, rfl⟩
    · exact ⟨rfl, rfl, rfl⟩
    · split
      · exact ⟨rfl, rfl, rfl⟩
      · rename_i appended
        exact ⟨rfl, rfl, rfl, appended⟩

theorem publishEntries_applies (log : Log) (entries : List LogEntry) :
    (node.publishEntries log entries).Ensures
      (fun after _ => after.lastApplied = node.lastApplied ∧ after.persistent = node.persistent ∧
        after.role = node.role) (fun _ => True) := by
  unfold publishEntries
  split
  · exact ⟨rfl, rfl, rfl⟩
  · exact ⟨rfl, rfl, rfl⟩

theorem reconcileReplicatedEntriesLocked_applies (entries : List LogEntry) :
    (node.reconcileReplicatedEntriesLocked entries fault).Ensures
      (fun after _ => after.lastApplied = node.lastApplied ∧ after.persistent = node.persistent ∧
        after.role = node.role) (fun _ => True) := by
  unfold reconcileReplicatedEntriesLocked
  split
  · exact ⟨rfl, rfl, rfl⟩
  · split
    · trivial
    · exact ⟨rfl, rfl, rfl⟩
    · exact publishEntries_applies _ _ _
  · split
    · trivial
    · exact ⟨rfl, rfl, rfl⟩
    · exact publishEntries_applies _ _ _

/-- Only a follower takes over entries. -/
theorem acceptEntries_applies (args : AppendEntriesArgs) :
    (node.acceptEntries args fault).Ensures
      (fun after _ => after.lastApplied = node.lastApplied ∧
        after.persistent.membership = node.persistent.membership ∧
        (after.log = node.log ∨ after.role = .follower)) (fun _ => True) := by
  unfold acceptEntries
  split
  · exact ⟨rfl, rfl, Or.inl rfl⟩
  · refine (reconcileReplicatedEntriesLocked_applies _ fault args.entries).andThen
      fun middle reconciled frame => ?_
    obtain ⟨applied, persistent, role⟩ := frame
    cases reconciled with
    | error error => exact ⟨applied, congrArg _ persistent, Or.inr role⟩
    | ok _ => exact ⟨applied, congrArg _ persistent, Or.inr role⟩

theorem appendEntries_applies (args : AppendEntriesArgs) :
    (node.appendEntries args termFault otherFault).Ensures
      (fun after _ => after.lastApplied = node.lastApplied ∧
        after.persistent.membership = node.persistent.membership ∧
        (after.log = node.log ∨ after.role = .follower)) (fun _ => True) := by
  unfold appendEntries
  split
  · exact ⟨rfl, rfl, Or.inl rfl⟩
  · split
    · refine Outcome.Ensures.andThen (node.enterTerm_applies termFault args.term)
        fun middle durable frame => ?_
      split
      · have accepted := middle.acceptEntries_applies otherFault args
        rw [frame.applied, frame.membership, frame.log] at accepted
        exact accepted
      · exact ⟨frame.applied, frame.membership, Or.inl frame.log⟩
    · exact node.acceptEntries_applies otherFault args

theorem createSnapshot_applies (index : ℕ) (data : Bytes) :
    (node.createSnapshot index data termFault otherFault).Ensures
      (fun after _ => after.lastApplied = node.lastApplied ∧
        after.persistent.membership = node.persistent.membership ∧
        after.log.entries ⊆ node.log.entries) (fun _ => True) := by
  unfold createSnapshot
  split
  · exact ⟨rfl, rfl, fun _ member => member⟩
  · unfold persistAndCompactSnapshotLocked
    split
    · trivial
    · exact ⟨rfl, rfl, fun _ member => member⟩
    · split
      · trivial
      · exact ⟨rfl, rfl, fun _ member => member⟩
      · split
        · exact ⟨rfl, rfl, fun _ member => member⟩
        · rename_i compacted
          exact ⟨rfl, rfl, Log.compact_subset compacted⟩

theorem finishInstall_applies (install : PendingInstall) :
    (node.finishInstall install fault).Ensures
      (fun after _ => node.lastApplied ≤ after.lastApplied ∧
        after.persistent.membership = node.persistent.membership ∧
        after.log.entries ⊆ node.log.entries) (fun _ => True) := by
  unfold finishInstall
  dsimp only
  split
  · trivial
  · exact ⟨le_rfl, rfl, fun _ member => member⟩
  · split
    · exact ⟨le_rfl, rfl, fun _ member => member⟩
    · rename_i restored
      exact ⟨le_max_left _ _, rfl, Log.restoreSnapshot_subset restored⟩

/-- The configuration entry that is applied next, with the membership it asks for. -/
def nextConfiguration : Option (LogEntry × Membership) :=
  if node.lastApplied ≥ node.commitIndex then none
  else
    match node.log.get (node.lastApplied + 1) with
    | none => none
    | some entry =>
        if isConfigurationEntry entry.data then
          match nextMembership entry with
          | .error _ => none
          | .ok membership => some (entry, membership)
        else none

variable {node}

theorem nextConfiguration_some {entry : LogEntry} {membership : Membership}
    (next : node.nextConfiguration = some (entry, membership)) :
    node.lastApplied < node.commitIndex ∧ node.log.get (node.lastApplied + 1) = some entry ∧
      isConfigurationEntry entry.data ∧ nextMembership entry = .ok membership := by
  unfold nextConfiguration at next
  split at next
  · cases next
  · rename_i behind
    split at next
    · cases next
    · rename_i found
      split at next
      · rename_i configuration
        split at next
        · cases next
        · rename_i decoded
          cases next
          exact ⟨not_le.mp behind, found, configuration, decoded⟩
      · cases next

/-- What `applyCommitted` has done when it sends an entry, or stops. -/
inductive Picked (node after : RaftNode) : ApplyStage → Prop where
  | command {entry : LogEntry} (found : node.log.get (node.lastApplied + 1) = some entry)
      (data : ¬ isConfigurationEntry entry.data) (same : after = node) :
      Picked node after (.picked (node.lastApplied + 1) entry)
  | stopped (frame : node.ApplyFrame after) : Picked node after .idle
  | configured {entry : LogEntry} {membership : Membership}
      (next : node.nextConfiguration = some (entry, membership))
      (published : after.persistent.membership = membership) (log : after.log = node.log)
      (applied : after.lastApplied = node.lastApplied ∨ after.lastApplied = node.lastApplied + 1) :
      Picked node after .idle

theorem Picked.applied {after : RaftNode} {stage : ApplyStage} (picked : node.Picked after stage) :
    node.lastApplied ≤ after.lastApplied := by
  cases picked with
  | command found data same => exact same ▸ le_rfl
  | stopped frame => exact frame.applied.ge
  | configured next published log applied => omega

theorem applyConfigurationEntryLocked_picks {entry : LogEntry} {membership : Membership}
    (decoded : nextMembership entry = .ok membership) :
    (node.applyConfigurationEntryLocked entry termFault otherFault).Ensures
      (fun after applied => after.log = node.log ∧ after.lastApplied = node.lastApplied ∧
        (after.persistent.membership = membership ∨
          applied = false ∧ after.persistent.membership = node.persistent.membership)) (fun _ => True) := by
  unfold applyConfigurationEntryLocked
  rw [decoded]
  dsimp only
  cases fault : termFault with
  | none =>
      rw [persistState_none]
      simp only [Outcome.andThen_done, not_true_eq_false, if_false]
      split
      · refine Outcome.Ensures.mono (enterTerm_applies _ otherFault _) (fun after applied frame => ?_)
          fun _ _ => trivial
        exact ⟨frame.log, frame.applied, Or.inl frame.membership⟩
      · exact ⟨rfl, rfl, Or.inl rfl⟩
  | crash => trivial
  | writeFails | syncFails | diskFull => exact ⟨rfl, rfl, Or.inr ⟨rfl, rfl⟩⟩

theorem pickCommitted_picks :
    (node.pickCommitted termFault otherFault).Ensures (fun after stage => node.Picked after stage)
      (fun _ => True) := by
  unfold pickCommitted
  split
  · exact .stopped (.refl node)
  · rename_i behind
    split
    · exact .stopped (.refl node)
    · rename_i entry found
      split
      · rename_i configuration
        cases decoded : nextMembership entry with
        | error error =>
            rw [applyConfigurationEntryLocked, decoded]
            exact .stopped (.refl node)
        | ok membership =>
            have next : node.nextConfiguration = some (entry, membership) := by
              rw [nextConfiguration, if_neg behind, found]
              simp only [configuration, if_true, decoded]
            refine (applyConfigurationEntryLocked_picks termFault otherFault decoded).andThen
              fun after applied picks => ?_
            obtain ⟨log, same, published | ⟨rfl, unpublished⟩⟩ := picks
            · cases applied with
              | false => exact .configured next published log (Or.inl same)
              | true => exact .configured next published log (Or.inr rfl)
            · exact .stopped ⟨same, unpublished, log⟩
      · rename_i command
        exact .command found command rfl

/-- The membership stays, nothing becomes unapplied, and a leader's log gets no new entries. -/
structure Settles (before after : RaftNode) : Prop where
  applied : before.lastApplied ≤ after.lastApplied
  membership : after.persistent.membership = before.persistent.membership
  entries : after.role = .leader → after.log.entries ⊆ before.log.entries

theorem ApplyFrame.settles {before after : RaftNode} (frame : before.ApplyFrame after) :
    before.Settles after where
  applied := frame.applied.ge
  membership := frame.membership
  entries _ := frame.log ▸ fun _ member => member

end RaftNode

namespace Outcome

theorem Frames.settles {α : Type} {outcome : Outcome α} {node : RaftNode} (frames : outcome.Frames node) :
    outcome.forget.Ensures (fun after _ => node.Settles after) fun _ => True :=
  (frames.appliesNothing.mono (fun _ _ => RaftNode.ApplyFrame.settles) fun _ _ => trivial).forget

end Outcome

/-- Sections that can give the node a membership or a leader an entry. -/
def Event.appliesOrProposes : Event → Bool
  | .pickCommitted _ _ | .propose _ _ => true
  | _ => false

theorem Process.effect_settles (process : Process) {event : Event} (quiet : event.appliesOrProposes = false) :
    (process.effect event).Ensures (fun after _ => process.node.Settles after) fun _ => True := by
  cases event with
  | pickCommitted stateFault leaveFault | propose data fault => simp [Event.appliesOrProposes] at quiet
  | startElection fault => exact (process.node.startElection_applies fault).settles
  | receiveRequestVote args termFault voteFault =>
      exact (process.node.requestVote_applies termFault voteFault args).settles
  | receiveVoteReply args reply fault =>
      exact (process.node.handleVoteReply_applies fault args.term reply).settles
  | tryBecomeLeader => exact process.node.tryBecomeLeader_applies.settles
  | receiveAppendReply peerID args reply fault =>
      exact (process.node.handleAppendEntriesReply_applies fault peerID args reply).settles
  | receiveInstallSnapshot args termFault saveFault =>
      exact (process.node.installSnapshot_applies termFault saveFault args).settles
  | receiveInstallReply peerID args reply fault =>
      exact (process.node.handleInstallSnapshotReply_applies fault peerID args reply).settles
  | receiveAppendEntries args purpose termFault logFault =>
      refine ((process.node.appendEntries_applies termFault logFault args).mono (fun after _ => ?_)
        fun _ _ => trivial).forget
      rintro ⟨applied, membership, log | follower⟩
      · exact RaftNode.ApplyFrame.settles ⟨applied, membership, log⟩
      · exact ⟨applied.ge, membership, fun leads => nomatch follower.symm.trans leads⟩
  | createSnapshot index data saveFault compactFault =>
      refine ((process.node.createSnapshot_applies saveFault compactFault index data).mono (fun after _ => ?_)
        fun _ _ => trivial).forget
      exact fun ⟨applied, membership, entries⟩ => ⟨applied.ge, membership, fun _ => entries⟩
  | finishInstall install fault =>
      refine ((process.node.finishInstall_applies fault install).mono (fun after _ => ?_)
        fun _ _ => trivial).forget
      exact fun ⟨applied, membership, entries⟩ => ⟨applied, membership, fun _ => entries⟩
  | markApplied =>
      simp only [effect]
      split
      · refine ⟨?_, rfl, fun _ _ member => member⟩
        unfold RaftNode.markApplied
        dsimp only
        split
        · rename_i below
          exact below.le
        · exact le_rfl
      · exact (RaftNode.ApplyFrame.refl process.node).settles
  | receiveProbeResult read peerID result fault =>
      simp only [effect]
      split
      · exact (process.node.handleReadResult_applies fault _ peerID result).settles
      · exact (RaftNode.ApplyFrame.refl process.node).settles
  | requestVotes | replicateTo peerID | sendApplied | sendInstallSnapshot peerID
  | restoreSnapshot install succeeds | beginRead read | probeRead read peerID | cancelRead read =>
      exact (RaftNode.ApplyFrame.refl process.node).settles

/-- Nothing that was applied becomes unapplied. -/
theorem Process.effect_applied (process : Process) (event : Event) :
    (process.effect event).Ensures (fun after _ => process.node.lastApplied ≤ after.lastApplied)
      fun _ => True := by
  cases event with
  | pickCommitted stateFault leaveFault =>
      exact ((RaftNode.pickCommitted_picks stateFault leaveFault).mono (fun _ _ => RaftNode.Picked.applied)
        fun _ _ => trivial).forget
  | propose data fault =>
      exact ((process.node.propose_applies fault data).mono (fun _ _ proposed => proposed.1.ge)
        fun _ _ => trivial).forget
  | _ => exact (process.effect_settles rfl).mono (fun _ _ settles => settles.applied) fun _ _ => trivial

end Raftiq
