import Raftiq.Raft.Effect
import Raftiq.Raft.TermOrder

namespace Raftiq

namespace RaftNode

/-- A state that a node may save: its membership is the published one or comes from a
configuration entry. -/
def MaySave (node : RaftNode) (state : PersistentState) : Prop :=
  state.membership = node.persistent.membership ∨ ∃ entry, nextMembership entry = .ok state.membership

/-- What a section does that writes nothing but persistent states, one after the other. -/
inductive SavesStates (before : RaftNode) : RaftNode → Prop where
  | refl : SavesStates before before
  | frame {middle after : RaftNode} (earlier : SavesStates before middle)
      (storage : after.storage = middle.storage) (log : after.log = middle.log)
      (persistent : after.persistent = middle.persistent) : SavesStates before after
  | save {middle after : RaftNode} (earlier : SavesStates before middle) (state : PersistentState)
      (may : middle.MaySave state) (fault : Fault) (durable : Bool)
      (saved : middle.persistState state fault = .done after durable) : SavesStates before after

theorem SavesStates.trans {before middle after : RaftNode} (first : before.SavesStates middle)
    (second : middle.SavesStates after) : before.SavesStates after := by
  induction second with
  | refl => exact first
  | frame _ storage log persistent ih => exact .frame ih storage log persistent
  | save _ state may fault durable saved ih => exact .save ih state may fault durable saved

/-- A crash strikes after a record has been written. -/
def SavesStatesLast (before : RaftNode) (wal : WALStorage) : Prop :=
  ∃ middle state, before.SavesStates middle ∧ middle.MaySave state ∧
    wal = middle.storage.appendRecord (.state state)

end RaftNode

namespace Outcome

variable {α β : Type} {node : RaftNode}

def SavesStates (outcome : Outcome α) (before : RaftNode) : Prop :=
  outcome.Ensures (fun after _ => before.SavesStates after) before.SavesStatesLast

theorem SavesStates.andThen {outcome : Outcome α} {next : RaftNode → α → Outcome β}
    (first : outcome.SavesStates node) (second : ∀ middle result, (next middle result).SavesStates middle) :
    (outcome.andThen next).SavesStates node := by
  refine Ensures.andThen first fun middle result saves => ?_
  refine (second middle result).mono (fun _ _ => saves.trans) ?_
  rintro wal ⟨last, state, later, may, rfl⟩
  exact ⟨last, state, saves.trans later, may, rfl⟩

end Outcome

namespace RaftNode

variable (node : RaftNode) (fault termFault otherFault : Fault)

theorem saves_refl {α : Type} (result : α) : (Outcome.done node result).SavesStates node :=
  SavesStates.refl

theorem saves_frame {α : Type} {after : RaftNode} (result : α) (storage : after.storage = node.storage)
    (log : after.log = node.log) (persistent : after.persistent = node.persistent) :
    (Outcome.done after result).SavesStates node :=
  SavesStates.frame .refl storage log persistent

theorem persistState_saves {state : PersistentState} (may : node.MaySave state) :
    (node.persistState state fault).SavesStates node := by
  cases saved : node.persistState state fault with
  | done after durable => exact SavesStates.save .refl state may fault durable saved
  | crashed wal =>
      refine ⟨node, state, .refl, may, ?_⟩
      unfold persistState WALStorage.writeSync WALStorage.saveState at saved
      cases fault with
      | crash => exact (Outcome.crashed.inj saved).symm
      | none => cases saved
      | writeFails => cases saved
      | syncFails => cases saved
      | diskFull => cases saved

theorem enterTerm_saves (term : ℕ) : (node.enterTerm term fault).SavesStates node := by
  apply Outcome.SavesStates.andThen
  · exact node.persistState_saves fault (Or.inl rfl)
  · intro middle durable
    split
    · exact middle.saves_frame _ rfl rfl rfl
    · exact middle.saves_refl _

theorem startElection_saves : (node.startElection fault).SavesStates node := by
  unfold startElection
  split
  · exact node.saves_refl _
  · split
    · exact node.saves_refl _
    · apply Outcome.SavesStates.andThen
      · exact node.persistState_saves fault (Or.inl rfl)
      · intro middle durable
        split
        · exact middle.saves_frame _ rfl rfl rfl
        · exact middle.saves_refl _

theorem considerVote_saves (args : RequestVoteArgs) : (node.considerVote args fault).SavesStates node := by
  unfold considerVote
  split
  · exact node.saves_refl _
  · split
    · exact node.saves_refl _
    · split
      · exact node.saves_refl _
      · apply Outcome.SavesStates.andThen
        · exact node.persistState_saves fault (Or.inl rfl)
        · exact fun middle durable => middle.saves_refl _

theorem requestVote_saves (args : RequestVoteArgs) :
    (node.requestVote args termFault otherFault).SavesStates node := by
  unfold requestVote
  split
  · exact node.saves_refl _
  · split
    · refine (node.enterTerm_saves termFault args.term).andThen fun middle durable => ?_
      split
      · exact middle.considerVote_saves otherFault args
      · exact middle.saves_refl _
    · exact node.considerVote_saves otherFault args

theorem handleVoteReply_saves (electionTerm : ℕ) (reply : RequestVoteReply) :
    (node.handleVoteReply electionTerm reply fault).SavesStates node := by
  unfold handleVoteReply
  split
  · refine (node.enterTerm_saves fault reply.term).andThen fun middle durable => ?_
    split
    · exact middle.saves_frame _ rfl rfl rfl
    · exact middle.saves_refl _
  · split
    · exact node.saves_frame _ rfl rfl rfl
    · exact node.saves_refl _

theorem tryBecomeLeader_saves : node.tryBecomeLeader.SavesStates node := by
  unfold tryBecomeLeader
  split
  · exact node.saves_refl _
  · split
    · exact node.saves_refl _
    · obtain ⟨_, persistent, _, _, log, storage, _⟩ := node.becomeLeaderLocked_frame
      exact node.saves_frame _ storage log persistent

theorem handleAppendEntriesReply_saves (peerID : NodeID) (args : AppendEntriesArgs)
    (reply : AppendEntriesReply) :
    (node.handleAppendEntriesReply peerID args reply fault).SavesStates node := by
  unfold handleAppendEntriesReply
  split
  · exact (node.enterTerm_saves fault reply.term).andThen fun middle durable => middle.saves_refl _
  · split
    · exact node.saves_refl _
    · split
      · exact node.saves_refl _
      · split
        · exact node.saves_frame _ rfl rfl rfl
        · split
          · exact node.saves_refl _
          · exact node.saves_frame _ rfl rfl rfl

theorem applyConfigurationEntryLocked_saves (entry : LogEntry) :
    (node.applyConfigurationEntryLocked entry termFault otherFault).SavesStates node := by
  unfold applyConfigurationEntryLocked
  split
  · exact node.saves_refl _
  · rename_i membership decoded
    refine (node.persistState_saves termFault (Or.inr ⟨entry, decoded⟩)).andThen fun middle durable => ?_
    split
    · exact middle.saves_refl _
    · split
      · exact middle.enterTerm_saves otherFault _
      · exact middle.saves_refl _

theorem pickCommitted_saves : (node.pickCommitted termFault otherFault).SavesStates node := by
  unfold pickCommitted
  split
  · exact node.saves_refl _
  · split
    · exact node.saves_refl _
    · split
      · refine (node.applyConfigurationEntryLocked_saves termFault otherFault _).andThen
          fun middle applied => ?_
        split
        · exact middle.saves_frame _ rfl rfl rfl
        · exact middle.saves_refl _
      · exact node.saves_refl _

theorem handleInstallSnapshotReply_saves (peerID : NodeID) (args : InstallSnapshotArgs)
    (reply : InstallSnapshotReply) :
    (node.handleInstallSnapshotReply peerID args reply fault).SavesStates node := by
  unfold handleInstallSnapshotReply
  split
  · exact (node.enterTerm_saves fault reply.term).andThen fun middle durable => middle.saves_refl _
  · split
    · exact node.saves_refl _
    · split
      · exact node.saves_refl _
      · split
        · exact node.saves_refl _
        · exact node.saves_frame _ rfl rfl rfl

theorem handleReadResult_saves (read : PendingRead) (peerID : NodeID) (result : ProbeResult) :
    (node.handleReadResult read peerID result fault).SavesStates node := by
  unfold handleReadResult
  cases result with
  | failed => exact node.saves_refl _
  | answered reply =>
      dsimp only
      split
      · exact (node.enterTerm_saves fault reply.term).andThen fun middle durable => middle.saves_refl _
      · split
        · exact node.saves_refl _
        · split
          · exact node.saves_refl _
          · exact node.saves_refl _

/-- A call of this term is not stale, and a higher term has been saved. -/
def Enters (term : ℕ) : Prop :=
  node.persistent.currentTerm ≤ term ∧ (node.persistent.currentTerm < term → termFault = .none)

theorem enterTerm_durable {fault : Fault} {node after : RaftNode} {term : ℕ} {durable : Bool}
    (entered : node.enterTerm term fault = .done after durable) : durable ↔ fault = .none := by
  unfold enterTerm persistState WALStorage.writeSync WALStorage.saveState at entered
  cases fault with
  | none | writeFails | syncFails | diskFull =>
      rw [← (Outcome.done.inj entered).2]
      simp
  | crash => cases entered

/-- What RPC handlers do before they act: answer a stale term, or save a higher one. -/
theorem enterTerm_andThen {α : Type} {term : ℕ} {next : RaftNode → Outcome α} {refuse : RaftNode → α}
    {done : RaftNode → α → Prop} {crashed : WALStorage → Prop} (newer : node.persistent.currentTerm < term)
    (saved : ∀ after, node.SavesStates after → ¬ node.Enters termFault term → done after (refuse after))
    (lost : ∀ wal, node.SavesStatesLast wal → crashed wal)
    (goesOn : ∀ middle, node.SavesStates middle → node.Enters termFault term → (next middle).Ensures done crashed) :
    ((node.enterTerm term termFault).andThen fun middle durable =>
      if durable then next middle else .done middle (refuse middle)).Ensures done crashed := by
  have saves := node.enterTerm_saves termFault term
  cases entered : node.enterTerm term termFault with
  | crashed wal =>
      rw [entered] at saves
      exact lost wal saves
  | done middle durable =>
      rw [entered] at saves
      have worked := enterTerm_durable entered
      rw [Outcome.andThen_done]
      split
      · rename_i isDurable
        exact goesOn middle saves ⟨newer.le, fun _ => worked.mp isDurable⟩
      · rename_i notDurable
        exact saved middle saves fun enters => notDurable (worked.mpr (enters.2 newer))

/-- `AppendEntries` saves a term at most before it touches the log. -/
theorem appendEntries_of_accept {args : AppendEntriesArgs} {done : RaftNode → Prop}
    {crashed : WALStorage → Prop}
    (saved : ∀ after, node.SavesStates after → ¬ node.Enters termFault args.term → done after)
    (lost : ∀ wal, node.SavesStatesLast wal → crashed wal)
    (accepted : ∀ middle, node.SavesStates middle → node.Enters termFault args.term →
      (middle.acceptEntries args otherFault).Ensures (fun after _ => done after) crashed) :
    (node.appendEntries args termFault otherFault).Ensures (fun after _ => done after) crashed := by
  unfold appendEntries
  split
  · rename_i stale
    exact saved node .refl fun enters => absurd enters.1 (not_le.mpr stale)
  · rename_i current
    split
    · rename_i newer
      exact node.enterTerm_andThen termFault newer saved lost accepted
    · rename_i notNewer
      exact accepted node .refl ⟨not_lt.mp current, fun newer => absurd newer notNewer⟩

theorem installSnapshot_of_persist {args : InstallSnapshotArgs} {done : RaftNode → InstallResult → Prop}
    {crashed : WALStorage → Prop}
    (saved : ∀ after reply, node.SavesStates after → done after (.replied reply))
    (lost : ∀ wal, node.SavesStatesLast wal → crashed wal)
    (persisted : ∀ middle, node.SavesStates middle → node.Enters termFault args.term →
      (middle.persistInstall args otherFault).Ensures done crashed) :
    (node.installSnapshot args termFault otherFault).Ensures done crashed := by
  unfold installSnapshot
  split
  · exact saved node _ .refl
  · rename_i current
    split
    · rename_i newer
      exact node.enterTerm_andThen termFault newer (fun after saves _ => saved after _ saves) lost persisted
    · rename_i notNewer
      exact persisted node .refl ⟨not_lt.mp current, fun newer => absurd newer notNewer⟩

end RaftNode

/-- Sections that write entries or snapshots. -/
def Event.writesLog : Event → Bool
  | .propose _ _ | .receiveAppendEntries _ _ _ _ | .createSnapshot _ _ _ _
  | .receiveInstallSnapshot _ _ _ | .finishInstall _ _ => true
  | _ => false

theorem Process.effect_saves (process : Process) {event : Event} (quiet : event.writesLog = false) :
    (process.effect event).SavesStates process.node := by
  cases event with
  | propose data fault | receiveAppendEntries args purpose termFault logFault
  | createSnapshot index data saveFault compactFault | receiveInstallSnapshot args termFault saveFault
  | finishInstall install fault => simp [Event.writesLog] at quiet
  | startElection fault => exact (process.node.startElection_saves fault).forget
  | receiveRequestVote args termFault voteFault =>
      exact (process.node.requestVote_saves termFault voteFault args).forget
  | receiveVoteReply args reply fault =>
      exact (process.node.handleVoteReply_saves fault args.term reply).forget
  | tryBecomeLeader => exact process.node.tryBecomeLeader_saves.forget
  | receiveAppendReply peerID args reply fault =>
      exact (process.node.handleAppendEntriesReply_saves fault peerID args reply).forget
  | pickCommitted stateFault leaveFault =>
      exact (process.node.pickCommitted_saves stateFault leaveFault).forget
  | receiveInstallReply peerID args reply fault =>
      exact (process.node.handleInstallSnapshotReply_saves fault peerID args reply).forget
  | markApplied =>
      simp only [effect]
      split
      · exact process.node.saves_frame _ rfl rfl rfl
      · exact process.node.saves_refl _
  | receiveProbeResult read peerID result fault =>
      simp only [effect]
      split
      · exact (process.node.handleReadResult_saves fault _ peerID result).forget
      · exact process.node.saves_refl _
  | requestVotes | replicateTo peerID | sendApplied | sendInstallSnapshot peerID
  | restoreSnapshot install succeeds | beginRead read | probeRead read peerID | cancelRead read =>
      exact process.node.saves_refl _

end Raftiq
