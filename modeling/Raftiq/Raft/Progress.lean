import Raftiq.Raft.TermOrder

namespace Raftiq

namespace RaftNode

/-- What the leader sends next to the peer lies beyond what it knows the peer to have. -/
def OrderedAt (node : RaftNode) (peerID : NodeID) : Prop :=
  ∃ nextIndex, node.nextIndex peerID = some nextIndex ∧ node.matchIndex peerID < nextIndex

def ProgressOrdered (node : RaftNode) : Prop :=
  ∀ peerID ∈ node.peerIDs, node.OrderedAt peerID

/-- A section that lowers no match index and keeps the order of the indexes. -/
structure Gains (before after : RaftNode) : Prop where
  peers : after.peerIDs = before.peerIDs
  matched : ∀ peerID, before.matchIndex peerID ≤ after.matchIndex peerID
  ordered : ∀ peerID, before.OrderedAt peerID → after.OrderedAt peerID

variable {before middle after : RaftNode}

theorem OrderedAt.of_same {peerID : NodeID} (ordered : before.OrderedAt peerID)
    (next : after.nextIndex peerID = before.nextIndex peerID)
    (matched : after.matchIndex peerID = before.matchIndex peerID) : after.OrderedAt peerID := by
  unfold OrderedAt
  rwa [next, matched]

theorem Gains.refl (node : RaftNode) : node.Gains node :=
  ⟨rfl, fun _ => le_rfl, fun _ ordered => ordered⟩

theorem Gains.trans (first : before.Gains middle) (second : middle.Gains after) : before.Gains after where
  peers := second.peers.trans first.peers
  matched peerID := (first.matched peerID).trans (second.matched peerID)
  ordered peerID ordered := second.ordered peerID (first.ordered peerID ordered)

/-- A section that does not touch the indexes. -/
theorem Gains.of_same (next : after.nextIndex = before.nextIndex)
    (matched : after.matchIndex = before.matchIndex) (peers : after.peerIDs = before.peerIDs) :
    before.Gains after where
  peers := peers
  matched peerID := by rw [matched]
  ordered peerID ordered := ordered.of_same (congrFun next peerID) (congrFun matched peerID)

/-- A section that goes on where another one has ended. -/
theorem Gains.continued {α : Type} {outcome : Outcome α} (first : before.Gains middle)
    (second : outcome.Ensures (fun after _ => middle.Gains after) fun _ => True) :
    outcome.Ensures (fun after _ => before.Gains after) fun _ => True :=
  second.mono (fun _ _ => first.trans) fun _ _ => trivial

theorem Gains.progressOrdered (gains : before.Gains after) (ordered : before.ProgressOrdered) :
    after.ProgressOrdered := by
  intro peerID peer
  rw [gains.peers] at peer
  exact gains.ordered peerID (ordered peerID peer)

section Sections

variable (node : RaftNode) (fault termFault otherFault : Fault)

theorem recordMatch_gains (peerID : NodeID) (lastReplicated : ℕ) :
    node.Gains (node.recordMatch peerID lastReplicated) := by
  unfold recordMatch
  by_cases ahead : lastReplicated > node.matchIndex peerID
  · simp only [if_pos ahead]
    refine ⟨rfl, fun other => ?_, fun other ordered => ?_⟩
    · by_cases same : other = peerID
      · subst same
        simpa using ahead.le
      · simp [same]
    · by_cases same : other = peerID
      · subst same
        exact ⟨lastReplicated + 1, by simp, by simp⟩
      · exact ordered.of_same (by simp [same]) (by simp [same])
  · simp only [if_neg ahead]
    exact .refl node

theorem recordInstalled_gains (peerID : NodeID) (index : ℕ) :
    node.Gains (node.recordInstalled peerID index) := by
  unfold recordInstalled
  refine ⟨rfl, fun other => ?_, fun other ordered => ?_⟩
  · by_cases same : other = peerID
    · subst same
      simp
    · simp [same]
  · by_cases same : other = peerID
    · subst same
      obtain ⟨nextIndex, found, below⟩ := ordered
      by_cases ahead : index + 1 > nextIndex
      · refine ⟨index + 1, by simp [found, ahead], ?_⟩
        simp only [Function.update_self]
        omega
      · refine ⟨nextIndex, by simp [found, ahead], ?_⟩
        simp only [Function.update_self]
        omega
    · refine ordered.of_same ?_ (by simp [same])
      dsimp only
      split
      · simp [same]
      · rfl

/-- A rejection may come late: the leader may know by then that the peer has the entry before. -/
def CanBackOff (peerID : NodeID) : Prop :=
  peerID ∈ node.peerIDs → ∀ nextIndex ∈ node.nextIndex peerID,
    nextIndex ≤ 1 ∨ node.matchIndex peerID + 1 < nextIndex

instance (peerID : NodeID) : Decidable (node.CanBackOff peerID) :=
  inferInstanceAs (Decidable (peerID ∈ node.peerIDs → ∀ nextIndex ∈ node.nextIndex peerID,
    nextIndex ≤ 1 ∨ node.matchIndex peerID + 1 < nextIndex))

theorem backOff_matchIndex (peerID : NodeID) : (node.backOff peerID).matchIndex = node.matchIndex :=
  rfl

theorem backOff_ordered_iff {node : RaftNode} {peerID : NodeID} (ordered : node.ProgressOrdered) :
    (node.backOff peerID).ProgressOrdered ↔ node.CanBackOff peerID := by
  cases found : node.nextIndex peerID with
  | none =>
      have same : node.backOff peerID = node := by simp only [backOff, found]
      rw [same]
      exact ⟨fun _ _ nextIndex known => by simp [found] at known, fun _ => ordered⟩
  | some nextIndex =>
      by_cases first : nextIndex > 1
      · have lowered : (node.backOff peerID).nextIndex =
            Function.update node.nextIndex peerID (some (nextIndex - 1)) := by
          simp only [backOff, found, if_pos first]
        constructor
        · intro orderedAfter peer known looked
          obtain ⟨next, looks, below⟩ := orderedAfter peerID peer
          rw [lowered, Function.update_self] at looks
          cases looks
          cases found.symm.trans looked
          change node.matchIndex peerID < nextIndex - 1 at below
          omega
        · intro canBackOff other peer
          by_cases same : other = peerID
          · subst same
            have room := canBackOff peer nextIndex found
            refine ⟨nextIndex - 1, by simp [lowered], ?_⟩
            change node.matchIndex other < nextIndex - 1
            omega
          · exact (ordered other peer).of_same (by simp [lowered, same]) (by rw [backOff_matchIndex])
      · have same : node.backOff peerID = node := by simp only [backOff, found, if_neg first]
        rw [same]
        refine ⟨fun _ _ known looked => ?_, fun _ => ordered⟩
        cases found.symm.trans looked
        exact Or.inl (not_lt.mp first)

theorem advanceCommitIndexLocked_gains : node.Gains node.advanceCommitIndexLocked :=
  .of_same rfl rfl rfl

theorem persistState_gains (state : PersistentState) :
    (node.persistState state fault).Ensures (fun after _ => node.Gains after) fun _ => True := by
  unfold persistState
  cases node.storage.writeSync (WALStorage.saveState state) fault with
  | ok wal => exact .of_same rfl rfl rfl
  | failed error wal => exact .of_same rfl rfl rfl
  | crashed wal => trivial

theorem enterTerm_gains (term : ℕ) :
    (node.enterTerm term fault).Ensures (fun after _ => node.Gains after) fun _ => True := by
  refine (node.persistState_gains fault _).andThen fun middle durable first => ?_
  cases durable with
  | false => exact first
  | true => exact first.trans (.of_same rfl rfl rfl)

theorem startElection_gains :
    (node.startElection fault).Ensures (fun after _ => node.Gains after) fun _ => True := by
  unfold startElection
  split
  · exact .refl node
  · split
    · exact .refl node
    · refine (node.persistState_gains fault _).andThen fun middle durable first => ?_
      cases durable with
      | false => exact first
      | true => exact first.trans (.of_same rfl rfl rfl)

theorem considerVote_gains (args : RequestVoteArgs) :
    (node.considerVote args fault).Ensures (fun after _ => node.Gains after) fun _ => True := by
  unfold considerVote
  split
  · exact .refl node
  · split
    · exact .refl node
    · split
      · exact .refl node
      · refine (node.persistState_gains fault _).andThen fun middle durable first => ?_
        exact first.trans (.of_same rfl rfl rfl)

theorem requestVote_gains (args : RequestVoteArgs) :
    (node.requestVote args termFault otherFault).Ensures (fun after _ => node.Gains after) fun _ => True := by
  unfold requestVote
  split
  · exact .refl node
  · split
    · refine (node.enterTerm_gains termFault args.term).andThen fun middle durable first => ?_
      cases durable with
      | false => exact first
      | true => exact first.continued (middle.considerVote_gains otherFault args)
    · exact node.considerVote_gains otherFault args

theorem handleVoteReply_gains (electionTerm : ℕ) (reply : RequestVoteReply) :
    (node.handleVoteReply electionTerm reply fault).Ensures (fun after _ => node.Gains after)
      fun _ => True := by
  unfold handleVoteReply
  split
  · refine (node.enterTerm_gains fault reply.term).andThen fun middle durable first => ?_
    cases durable with
    | false => exact first
    | true => exact first.trans (.of_same rfl rfl rfl)
  · split
    · exact .of_same rfl rfl rfl
    · exact .refl node

theorem propose_gains (data : Bytes) :
    (node.propose data fault).Ensures (fun after _ => node.Gains after) fun _ => True := by
  unfold propose
  split
  · exact .refl node
  · dsimp only
    split
    · trivial
    · exact .of_same rfl rfl rfl
    · exact .of_same rfl rfl rfl
    · split
      · exact .of_same rfl rfl rfl
      · exact .of_same rfl rfl rfl

theorem publishEntries_gains (log : Log) (entries : List LogEntry) :
    (node.publishEntries log entries).Ensures (fun after _ => node.Gains after) fun _ => True := by
  unfold publishEntries
  split
  · exact .of_same rfl rfl rfl
  · exact .of_same rfl rfl rfl

theorem reconcileReplicatedEntriesLocked_gains (entries : List LogEntry) :
    (node.reconcileReplicatedEntriesLocked entries fault).Ensures (fun after _ => node.Gains after)
      fun _ => True := by
  unfold reconcileReplicatedEntriesLocked
  split
  · exact .refl node
  · split
    · trivial
    · exact .of_same rfl rfl rfl
    · rename_i wal _
      have saved : node.Gains { node with storage := wal } := .of_same rfl rfl rfl
      exact saved.continued (publishEntries_gains _ _ _)
  · split
    · trivial
    · exact .of_same rfl rfl rfl
    · rename_i wal _
      have saved : node.Gains { node with storage := wal } := .of_same rfl rfl rfl
      exact saved.continued (publishEntries_gains _ _ _)

theorem acceptEntries_gains (args : AppendEntriesArgs) :
    (node.acceptEntries args fault).Ensures (fun after _ => node.Gains after) fun _ => True := by
  unfold acceptEntries
  split
  · exact .refl node
  · have follows : node.Gains { node with role := .follower, leaderID := args.leaderID } := .of_same rfl rfl rfl
    refine (reconcileReplicatedEntriesLocked_gains _ fault args.entries).andThen fun middle result first => ?_
    have gains := follows.trans first
    cases result with
    | error error => exact gains
    | ok _ => exact gains.trans (.of_same rfl rfl rfl)

theorem appendEntries_gains (args : AppendEntriesArgs) :
    (node.appendEntries args termFault otherFault).Ensures (fun after _ => node.Gains after) fun _ => True := by
  unfold appendEntries
  split
  · exact .refl node
  · split
    · refine (node.enterTerm_gains termFault args.term).andThen fun middle durable first => ?_
      cases durable with
      | false => exact first
      | true => exact first.continued (middle.acceptEntries_gains otherFault args)
    · exact node.acceptEntries_gains otherFault args

theorem applyConfigurationEntryLocked_gains (entry : LogEntry) :
    (node.applyConfigurationEntryLocked entry termFault otherFault).Ensures (fun after _ => node.Gains after)
      fun _ => True := by
  unfold applyConfigurationEntryLocked
  split
  · exact .refl node
  · refine (node.persistState_gains termFault _).andThen fun middle durable first => ?_
    cases durable with
    | false => exact first
    | true =>
        simp only [not_true_eq_false, ↓reduceIte]
        split
        · exact first.continued (middle.enterTerm_gains otherFault _)
        · exact first

theorem pickCommitted_gains :
    (node.pickCommitted termFault otherFault).Ensures (fun after _ => node.Gains after) fun _ => True := by
  unfold pickCommitted
  split
  · exact .refl node
  · split
    · exact .refl node
    · split
      · refine (node.applyConfigurationEntryLocked_gains termFault otherFault _).andThen
          fun middle applied first => ?_
        cases applied with
        | false => exact first
        | true => exact first.trans (.of_same rfl rfl rfl)
      · exact .refl node

theorem createSnapshot_gains (index : ℕ) (data : Bytes) :
    (node.createSnapshot index data termFault otherFault).Ensures (fun after _ => node.Gains after)
      fun _ => True := by
  unfold createSnapshot
  split
  · exact .refl node
  · unfold persistAndCompactSnapshotLocked
    split
    · trivial
    · exact .of_same rfl rfl rfl
    · split
      · trivial
      · exact .of_same rfl rfl rfl
      · split
        · exact .of_same rfl rfl rfl
        · exact .of_same rfl rfl rfl

theorem persistInstall_gains (args : InstallSnapshotArgs) :
    (node.persistInstall args fault).Ensures (fun after _ => node.Gains after) fun _ => True := by
  unfold persistInstall
  dsimp only
  split
  · exact .of_same rfl rfl rfl
  · split
    · exact .of_same rfl rfl rfl
    · split
      · trivial
      · exact .of_same rfl rfl rfl
      · exact .of_same rfl rfl rfl

theorem installSnapshot_gains (args : InstallSnapshotArgs) :
    (node.installSnapshot args termFault otherFault).Ensures (fun after _ => node.Gains after)
      fun _ => True := by
  unfold installSnapshot
  split
  · exact .refl node
  · split
    · refine (node.enterTerm_gains termFault args.term).andThen fun middle durable first => ?_
      cases durable with
      | false => exact first
      | true => exact first.continued (middle.persistInstall_gains otherFault args)
    · exact node.persistInstall_gains otherFault args

theorem finishInstall_gains (install : PendingInstall) :
    (node.finishInstall install fault).Ensures (fun after _ => node.Gains after) fun _ => True := by
  unfold finishInstall
  dsimp only
  split
  · trivial
  · exact .of_same rfl rfl rfl
  · split
    · exact .of_same rfl rfl rfl
    · exact .of_same rfl rfl rfl

theorem handleInstallSnapshotReply_gains (peerID : NodeID) (args : InstallSnapshotArgs)
    (reply : InstallSnapshotReply) :
    (node.handleInstallSnapshotReply peerID args reply fault).Ensures (fun after _ => node.Gains after)
      fun _ => True := by
  unfold handleInstallSnapshotReply
  split
  · exact (node.enterTerm_gains fault reply.term).andThen fun _ _ first => first
  · split
    · exact .refl node
    · split
      · exact .refl node
      · split
        · exact .refl node
        · exact (node.recordInstalled_gains peerID _).trans (advanceCommitIndexLocked_gains _)

theorem handleReadResult_gains (read : PendingRead) (peerID : NodeID) (result : ProbeResult) :
    (node.handleReadResult read peerID result fault).Ensures (fun after _ => node.Gains after)
      fun _ => True := by
  unfold handleReadResult
  cases result with
  | failed => exact .refl node
  | answered reply =>
      dsimp only
      split
      · exact (node.enterTerm_gains fault reply.term).andThen fun _ _ first => first
      · split
        · exact .refl node
        · split
          · exact .refl node
          · exact .refl node

/-- The leader of the term that the call was made in handles a refusal. -/
def Rejects (args : AppendEntriesArgs) (reply : AppendEntriesReply) : Prop :=
  reply.term ≤ node.persistent.currentTerm ∧ node.role = .leader ∧ args.term = node.persistent.currentTerm ∧
    reply.success = false

instance (args : AppendEntriesArgs) (reply : AppendEntriesReply) : Decidable (node.Rejects args reply) :=
  inferInstanceAs (Decidable (_ ∧ _ ∧ _ ∧ _))

variable {node} in
theorem Rejects.backOff {args : AppendEntriesArgs} {reply : AppendEntriesReply}
    (rejects : node.Rejects args reply) (peerID : NodeID) (fault : Fault) :
    node.handleAppendEntriesReply peerID args reply fault = .done (node.backOff peerID) () := by
  obtain ⟨reached, leads, current, refused⟩ := rejects
  simp [handleAppendEntriesReply, not_lt.mpr reached, leads, current, refused]

theorem handleAppendEntriesReply_gains (peerID : NodeID) (args : AppendEntriesArgs) (reply : AppendEntriesReply)
    (accepts : ¬ node.Rejects args reply) :
    (node.handleAppendEntriesReply peerID args reply fault).Ensures (fun after _ => node.Gains after)
      fun _ => True := by
  unfold handleAppendEntriesReply
  split
  · exact (node.enterTerm_gains fault reply.term).andThen fun _ _ first => first
  · rename_i reached
    split
    · exact .refl node
    · rename_i leads
      split
      · exact .refl node
      · rename_i current
        split
        · rename_i refused
          exact absurd ⟨not_lt.mp reached, not_not.mp leads, not_not.mp current, by simpa using refused⟩ accepts
        · split
          · exact .refl node
          · exact (node.recordMatch_gains peerID _).trans (advanceCommitIndexLocked_gains _)

end Sections

/-- A new leader knows nothing of its peers. -/
theorem becomeLeaderLocked_ordered (node : RaftNode) : node.becomeLeaderLocked.ProgressOrdered := by
  have ordered : ∀ (peers : List NodeID) (start : RaftNode) (peerID : NodeID),
      peerID ∈ peers ∨ start.OrderedAt peerID →
        (peers.foldl initializeReplicationStateLocked start).OrderedAt peerID := by
    intro peers
    induction peers with
    | nil => exact fun start peerID known => known.resolve_left (by simp)
    | cons first rest ih =>
        intro start peerID known
        apply ih
        by_cases same : peerID = first
        · subst same
          exact Or.inr ⟨start.log.lastIndex + 1, by simp [initializeReplicationStateLocked],
            by simp [initializeReplicationStateLocked]⟩
        · refine known.imp (fun member => (List.mem_cons.mp member).resolve_left same) fun ordered => ?_
          exact ordered.of_same (by simp [initializeReplicationStateLocked, same])
            (by simp [initializeReplicationStateLocked, same])
  intro peerID peer
  rw [node.becomeLeaderLocked_frame.2.2.2.2.2.2.2.2] at peer
  exact ordered node.peerIDs _ peerID (Or.inl peer)

end RaftNode

end Raftiq
