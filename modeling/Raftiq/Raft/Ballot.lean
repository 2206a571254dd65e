import Raftiq.Raft.Election
import Raftiq.Raft.Snapshot
import Raftiq.Storage.Survivors
import Mathlib.Logic.Relation

namespace Raftiq

namespace PersistentState

/-- A later term, or the same term with the vote kept. -/
def Precedes (before after : PersistentState) : Prop :=
  before.currentTerm < after.currentTerm ∨
    before.currentTerm = after.currentTerm ∧
      (before.votedFor = "" ∨ after.votedFor = before.votedFor)

theorem Precedes.refl (state : PersistentState) : state.Precedes state :=
  Or.inr ⟨rfl, Or.inr rfl⟩

theorem Precedes.trans {first second third : PersistentState} (left : first.Precedes second)
    (right : second.Precedes third) : first.Precedes third := by
  rcases left with before | ⟨same, vote⟩
  · rcases right with between | ⟨sameToo, _⟩
    · exact Or.inl (before.trans between)
    · exact Or.inl (before.trans_eq sameToo)
  · rcases right with between | ⟨sameToo, voteToo⟩
    · exact Or.inl (same.trans_lt between)
    · refine Or.inr ⟨same.trans sameToo, ?_⟩
      rcases vote with none | kept
      · exact Or.inl none
      · rw [← kept]
        exact voteToo

theorem precedes_enterTerm {state : PersistentState} {term : ℕ} (ahead : state.currentTerm < term) :
    state.Precedes (state.enterTerm term) :=
  Or.inl ahead

/-- A state with the same membership that keeps the ballot. -/
def Extended (before after : PersistentState) : Prop :=
  before.Precedes after ∧ after.membership = before.membership

end PersistentState

namespace RaftNode

variable {node : RaftNode} {wal : WALStorage}

/-- Whatever a crash leaves of the storage, the ballot is not behind what it was. -/
def Spares (node : RaftNode) (wal : WALStorage) : Prop :=
  ∀ contents, wal.Survives contents →
    (∃ earlier, node.storage.Survives earlier ∧ earlier.state = contents.state) ∨
      node.persistent.Extended contents.state

theorem spares_storage (node : RaftNode) : node.Spares node.storage :=
  fun contents survives => Or.inl ⟨contents, survives, rfl⟩

theorem Spares.appendRecord (spares : node.Spares wal) {record : Record}
    (state : (record.effect wal.contents).state = wal.contents.state) :
    node.Spares (wal.appendRecord record) := by
  intro contents survives
  rcases survives.of_appendRecord with earlier | rfl
  · exact spares contents earlier
  · rw [state]
    exact spares wal.contents wal.survives_contents

theorem Spares.sync (spares : node.Spares wal) : node.Spares wal.sync := by
  intro contents survives
  rw [survives.of_sync]
  exact spares wal.contents wal.survives_contents

theorem Spares.writeSync {write : WALStorage → Except StorageError WALStorage} {fault : Fault}
    (spares : node.Spares wal)
    (writes : ∀ written, write wal = .ok written → node.Spares written) :
    (wal.writeSync write fault).Ensures node.Spares node.Spares node.Spares :=
  WALStorage.writeSync_ensures spares (fun written accepted => (writes written accepted).sync) writes

theorem Spares.appendEntries (spares : node.Spares wal) (entries : List LogEntry) (fault : Fault) :
    (wal.writeSync (WALStorage.appendEntries entries) fault).Ensures
      node.Spares node.Spares node.Spares := by
  refine spares.writeSync fun written accepted => ?_
  unfold WALStorage.appendEntries at accepted
  split at accepted
  · cases accepted
    exact spares
  · split at accepted
    · simp at accepted
    · split at accepted
      · simp at accepted
      · cases accepted
        exact spares.appendRecord rfl

theorem Spares.replaceSuffix (spares : node.Spares wal) (start : ℕ) (entries : List LogEntry)
    (fault : Fault) :
    (wal.writeSync (WALStorage.replaceSuffix start entries) fault).Ensures
      node.Spares node.Spares node.Spares := by
  refine spares.writeSync fun written accepted => ?_
  unfold WALStorage.replaceSuffix at accepted
  split at accepted
  · simp at accepted
  · cases accepted
    exact spares.appendRecord rfl

theorem Spares.saveSnapshot (spares : node.Spares wal) (snapshot : Snapshot) (fault : Fault) :
    (wal.writeSync (WALStorage.saveSnapshot snapshot) fault).Ensures
      node.Spares node.Spares node.Spares := by
  refine spares.writeSync fun written accepted => ?_
  cases accepted
  exact spares.appendRecord rfl

theorem Spares.compactDurably (spares : node.Spares wal) (snapshot : Snapshot) (fault : Fault) :
    (wal.compactDurably snapshot fault).Ensures node.Spares node.Spares node.Spares := by
  refine WALStorage.compactDurably_ensures spares fun compacted done contents survives => ?_
  obtain ⟨state, _, _, synced, _⟩ := WALStorage.compact_ok done
  rw [survives.eq_of_synced synced, state]
  exact spares wal.contents wal.survives_contents

/-- A step that leaves the ballot alone, except that the node may step down. -/
structure KeepsBallot (before after : RaftNode) : Prop where
  id : after.id = before.id
  persistent : after.persistent = before.persistent
  role : after.role = .follower ∨
    after.role = before.role ∧ after.votesReceived = before.votesReceived
  storage : before.Spares after.storage

theorem KeepsBallot.refl (node : RaftNode) : node.KeepsBallot node where
  id := rfl
  persistent := rfl
  role := Or.inr ⟨rfl, rfl⟩
  storage := node.spares_storage

/-- Everything a node ever does to its ballot. -/
inductive BallotMove : RaftNode → RaftNode → Prop where
  | keep {before after} (kept : before.KeepsBallot after) : BallotMove before after
  | enter {before after} (term : ℕ) (ahead : before.persistent.currentTerm < term)
      (id : after.id = before.id) (persistent : after.persistent = before.persistent.enterTerm term)
      (role : after.role = .follower)
      (durable : ∀ contents, after.storage.Survives contents → contents.state = after.persistent) :
      BallotMove before after
  | vote {before after} (candidate : NodeID)
      (voter : membershipIsVoter before.persistent.membership candidate)
      (free : before.persistent.votedFor = "" ∨ before.persistent.votedFor = candidate)
      (id : after.id = before.id)
      (persistent : after.persistent = { before.persistent with votedFor := candidate })
      (role : after.role = before.role) (votes : after.votesReceived = before.votesReceived)
      (durable : ∀ contents, after.storage.Survives contents → contents.state = after.persistent) :
      BallotMove before after
  | stand {before after} (voter : membershipIsVoter before.persistent.membership before.id)
      (id : after.id = before.id)
      (persistent : after.persistent =
        { before.persistent with
          currentTerm := before.persistent.currentTerm + 1, votedFor := before.id })
      (role : after.role = .candidate) (votes : after.votesReceived = [before.id])
      (durable : ∀ contents, after.storage.Survives contents → contents.state = after.persistent) :
      BallotMove before after

theorem BallotMove.precedes {before after : RaftNode} (move : BallotMove before after) :
    before.persistent.Precedes after.persistent := by
  cases move with
  | keep kept =>
      rw [kept.persistent]
      exact .refl _
  | enter term ahead id persistent =>
      rw [persistent]
      exact PersistentState.precedes_enterTerm ahead
  | vote candidate voter free id persistent =>
      rw [persistent]
      exact Or.inr ⟨rfl, free.imp_right Eq.symm⟩
  | stand voter id persistent =>
      rw [persistent]
      exact Or.inl (Nat.lt_succ_self _)

/-- How far the ballot of a handler has come when its storage call ends. -/
theorem persistState_ensures (node : RaftNode) {state : PersistentState} (fault : Fault)
    (extended : node.persistent.Extended state) :
    (node.persistState state fault).Ensures
      (fun after durable =>
        if durable then
          after = { node with storage := after.storage, persistent := state } ∧
            ∀ contents, after.storage.Survives contents → contents.state = state
        else after = { node with storage := after.storage } ∧ node.Spares after.storage)
      node.Spares := by
  have unsynced : node.Spares (node.storage.appendRecord (.state state)) := by
    intro contents survives
    rcases survives.of_appendRecord with earlier | rfl
    · exact node.spares_storage contents earlier
    · exact Or.inr extended
  unfold persistState WALStorage.writeSync WALStorage.saveState
  cases fault with
  | none => exact ⟨rfl, fun contents survives => by rw [survives.of_sync]; rfl⟩
  | writeFails => exact ⟨rfl, node.spares_storage⟩
  | syncFails => exact ⟨rfl, unsynced⟩
  | diskFull => exact ⟨rfl, unsynced⟩
  | crash => exact unsynced

/-- How far a handler's ballot can have come, and what is left of it after a crash. -/
def BallotPath (before after : RaftNode) : Prop :=
  Relation.ReflTransGen BallotMove before after

def BallotLost (before : RaftNode) (wal : WALStorage) : Prop :=
  ∃ middle, before.BallotPath middle ∧ middle.Spares wal

theorem BallotPath.of_move {before after : RaftNode} (move : BallotMove before after) :
    before.BallotPath after :=
  .single move

theorem BallotPath.precedes {before after : RaftNode} (path : before.BallotPath after) :
    before.persistent.Precedes after.persistent := by
  induction path with
  | refl => exact .refl _
  | tail _ move ih => exact ih.trans move.precedes

theorem Spares.lost (spares : node.Spares wal) : node.BallotLost wal :=
  ⟨node, .refl, spares⟩

theorem BallotLost.of_move {before after : RaftNode} (move : BallotMove before after)
    (lost : after.BallotLost wal) : before.BallotLost wal := by
  obtain ⟨middle, path, spares⟩ := lost
  exact ⟨middle, .head move path, spares⟩

theorem enterTerm_ensures (node : RaftNode) {term : ℕ} (fault : Fault)
    (ahead : node.persistent.currentTerm < term) :
    (node.enterTerm term fault).Ensures (fun after _ => BallotMove node after) node.Spares := by
  have extended : node.persistent.Extended (node.persistent.enterTerm term) :=
    ⟨PersistentState.precedes_enterTerm ahead, rfl⟩
  refine (node.persistState_ensures fault extended).andThen fun middle durable reached => ?_
  cases durable with
  | false =>
      simp only [Bool.false_eq_true, ↓reduceIte] at reached ⊢
      rw [reached.1]
      exact .keep ⟨rfl, rfl, Or.inr ⟨rfl, rfl⟩, reached.2⟩
  | true =>
      simp only [↓reduceIte] at reached ⊢
      rw [reached.1]
      exact .enter term ahead rfl rfl rfl reached.2

theorem startElection_ensures (node : RaftNode) (fault : Fault) :
    (node.startElection fault).Ensures (fun after _ => BallotMove node after) node.Spares := by
  unfold startElection
  split
  · exact .keep (.refl node)
  · rename_i voter
    split
    · exact .keep (.refl node)
    · have extended : node.persistent.Extended
          { node.persistent with
            currentTerm := node.persistent.currentTerm + 1, votedFor := node.id } :=
        ⟨Or.inl (Nat.lt_succ_self _), rfl⟩
      refine (node.persistState_ensures fault extended).andThen fun middle durable reached => ?_
      cases durable with
      | false =>
          simp only [Bool.false_eq_true, ↓reduceIte] at reached ⊢
          rw [reached.1]
          exact .keep ⟨rfl, rfl, Or.inr ⟨rfl, rfl⟩, reached.2⟩
      | true =>
          simp only [↓reduceIte] at reached ⊢
          rw [reached.1]
          exact .stand (not_not.mp voter) rfl rfl rfl rfl reached.2

/-- A granted vote is a durable one. -/
def Grants (after : RaftNode) (args : RequestVoteArgs) (reply : RequestVoteReply) : Prop :=
  reply.voteGranted →
    after.persistent.votedFor = args.candidateID ∧ args.candidateID ≠ "" ∧
      reply.term = after.persistent.currentTerm ∧ reply.voterID = after.id ∧
      ∀ contents, after.storage.Survives contents → contents.state = after.persistent

theorem considerVote_ensures (node : RaftNode) (args : RequestVoteArgs) (fault : Fault) :
    (node.considerVote args fault).Ensures
      (fun after reply => BallotMove node after ∧ after.Grants args reply) node.Spares := by
  have denied : BallotMove node node ∧ node.Grants args (node.voteReply false) :=
    ⟨.keep (.refl node), fun granted => by simp [voteReply] at granted⟩
  unfold considerVote
  split
  · exact denied
  · rename_i voter
    split
    · exact denied
    · rename_i free
      split
      · exact denied
      · have candidate := membershipIsVoter_ne_empty (not_not.mp voter)
        have unbound : node.persistent.votedFor = "" ∨ node.persistent.votedFor = args.candidateID := by
          simp only [not_and, not_not] at free
          exact or_iff_not_imp_left.mpr free
        have extended : node.persistent.Extended { node.persistent with votedFor := args.candidateID } :=
          ⟨Or.inr ⟨rfl, unbound.imp_right Eq.symm⟩, rfl⟩
        refine (node.persistState_ensures fault extended).andThen fun middle durable reached => ?_
        cases durable with
        | false =>
            simp only [Bool.false_eq_true, ↓reduceIte] at reached
            rw [reached.1]
            exact ⟨.keep ⟨rfl, rfl, Or.inr ⟨rfl, rfl⟩, reached.2⟩,
              fun granted => by simp [voteReply] at granted⟩
        | true =>
            simp only [↓reduceIte] at reached
            rw [reached.1]
            exact ⟨.vote args.candidateID (not_not.mp voter) unbound rfl rfl rfl rfl reached.2,
              fun _ => ⟨rfl, candidate, rfl, rfl, reached.2⟩⟩

theorem requestVote_ensures (node : RaftNode) (args : RequestVoteArgs) (termFault voteFault : Fault) :
    (node.requestVote args termFault voteFault).Ensures
      (fun after reply => node.BallotPath after ∧ after.Grants args reply) node.BallotLost := by
  unfold requestVote
  split
  · exact ⟨.refl, fun granted => by simp [voteReply] at granted⟩
  · split
    · rename_i ahead
      refine ((node.enterTerm_ensures termFault ahead).mono (fun _ _ move => move)
        fun _ spares => spares.lost).andThen fun middle durable move => ?_
      cases durable with
      | false => exact ⟨.single move, fun granted => by simp [voteReply] at granted⟩
      | true =>
          exact (middle.considerVote_ensures args voteFault).mono
            (fun _ _ voted => ⟨.head move (.single voted.1), voted.2⟩)
            (fun _ spares => .of_move move spares.lost)
    · exact (node.considerVote_ensures args voteFault).mono
        (fun _ _ voted => ⟨.single voted.1, voted.2⟩) (fun _ spares => spares.lost)

theorem publishEntries_ensures (node : RaftNode) (log : Log) (entries : List LogEntry)
    {before : RaftNode} (kept : before.KeepsBallot node) :
    (node.publishEntries log entries).Ensures (fun after _ => before.KeepsBallot after) before.Spares := by
  unfold publishEntries
  split
  · exact ⟨kept.id, kept.persistent, kept.role, kept.storage⟩
  · exact ⟨kept.id, kept.persistent, kept.role, kept.storage⟩

theorem reconcileReplicatedEntriesLocked_ensures (node : RaftNode) (entries : List LogEntry)
    (fault : Fault) :
    (node.reconcileReplicatedEntriesLocked entries fault).Ensures
      (fun after _ => node.KeepsBallot after) node.Spares := by
  unfold reconcileReplicatedEntriesLocked
  split
  · exact .refl node
  · rename_i newEntries _
    have spares := node.spares_storage.appendEntries newEntries fault
    split
    · rename_i written
      rw [written] at spares
      exact spares
    · rename_i written
      rw [written] at spares
      exact ⟨rfl, rfl, Or.inr ⟨rfl, rfl⟩, spares⟩
    · rename_i written
      rw [written] at spares
      exact publishEntries_ensures _ _ _ ⟨rfl, rfl, Or.inr ⟨rfl, rfl⟩, spares⟩
  · rename_i replaceFrom newEntries _
    have spares := node.spares_storage.replaceSuffix replaceFrom newEntries fault
    split
    · rename_i written
      rw [written] at spares
      exact spares
    · rename_i written
      rw [written] at spares
      exact ⟨rfl, rfl, Or.inr ⟨rfl, rfl⟩, spares⟩
    · rename_i written
      rw [written] at spares
      exact publishEntries_ensures _ _ _ ⟨rfl, rfl, Or.inr ⟨rfl, rfl⟩, spares⟩

theorem acceptEntries_ensures (node : RaftNode) (args : AppendEntriesArgs) (fault : Fault) :
    (node.acceptEntries args fault).Ensures (fun after _ => node.KeepsBallot after) node.Spares := by
  unfold acceptEntries
  split
  · exact .refl node
  · refine (reconcileReplicatedEntriesLocked_ensures _ args.entries fault).andThen
      fun middle reconciled kept => ?_
    have stepped : node.KeepsBallot middle :=
      ⟨kept.id, kept.persistent, Or.inl (kept.role.elim (fun follower => follower) And.left), kept.storage⟩
    cases reconciled with
    | error error => exact stepped
    | ok _ => exact ⟨stepped.id, stepped.persistent, stepped.role, stepped.storage⟩

theorem appendEntries_ensures (node : RaftNode) (args : AppendEntriesArgs) (termFault logFault : Fault) :
    (node.appendEntries args termFault logFault).Ensures
      (fun after _ => node.BallotPath after) node.BallotLost := by
  unfold appendEntries
  split
  · exact .refl
  · split
    · rename_i ahead
      refine ((node.enterTerm_ensures termFault ahead).mono (fun _ _ move => move)
        fun _ spares => spares.lost).andThen fun middle durable move => ?_
      cases durable with
      | false => exact .single move
      | true =>
          exact (middle.acceptEntries_ensures args logFault).mono
            (fun _ _ kept => .head move (.single (.keep kept)))
            (fun _ spares => .of_move move spares.lost)
    · exact (node.acceptEntries_ensures args logFault).mono
        (fun _ _ kept => .single (.keep kept)) (fun _ spares => spares.lost)

theorem persistInstall_ensures (node : RaftNode) (args : InstallSnapshotArgs) (fault : Fault) :
    (node.persistInstall args fault).Ensures (fun after _ => node.KeepsBallot after) node.Spares := by
  have spares := node.spares_storage.saveSnapshot args.snapshot fault
  unfold persistInstall
  dsimp only
  split
  · exact ⟨rfl, rfl, Or.inl rfl, node.spares_storage⟩
  · split
    · exact ⟨rfl, rfl, Or.inl rfl, node.spares_storage⟩
    · split
      · rename_i written
        rw [written] at spares
        exact spares
      · rename_i written
        rw [written] at spares
        exact ⟨rfl, rfl, Or.inl rfl, spares⟩
      · rename_i written
        rw [written] at spares
        exact ⟨rfl, rfl, Or.inl rfl, spares⟩

theorem installSnapshot_ensures (node : RaftNode) (args : InstallSnapshotArgs)
    (termFault saveFault : Fault) :
    (node.installSnapshot args termFault saveFault).Ensures
      (fun after _ => node.BallotPath after) node.BallotLost := by
  unfold installSnapshot
  split
  · exact .refl
  · split
    · rename_i ahead
      refine ((node.enterTerm_ensures termFault ahead).mono (fun _ _ move => move)
        fun _ spares => spares.lost).andThen fun middle durable move => ?_
      cases durable with
      | false => exact .single move
      | true =>
          exact (middle.persistInstall_ensures args saveFault).mono
            (fun _ _ kept => .head move (.single (.keep kept)))
            (fun _ spares => .of_move move spares.lost)
    · exact (node.persistInstall_ensures args saveFault).mono
        (fun _ _ kept => .single (.keep kept)) (fun _ spares => spares.lost)

theorem finishInstall_ensures (node : RaftNode) (install : PendingInstall) (fault : Fault) :
    (node.finishInstall install fault).Ensures (fun after _ => node.KeepsBallot after) node.Spares := by
  have spares := node.spares_storage.compactDurably install.args.snapshot fault
  unfold finishInstall
  dsimp only
  split
  · rename_i written
    rw [written] at spares
    exact spares
  · rename_i written
    rw [written] at spares
    exact ⟨rfl, rfl, Or.inr ⟨rfl, rfl⟩, spares⟩
  · rename_i written
    rw [written] at spares
    split
    · exact ⟨rfl, rfl, Or.inr ⟨rfl, rfl⟩, spares⟩
    · exact ⟨rfl, rfl, Or.inr ⟨rfl, rfl⟩, spares⟩

theorem createSnapshot_ensures (node : RaftNode) (index : ℕ) (data : Bytes)
    (saveFault compactFault : Fault) :
    (node.createSnapshot index data saveFault compactFault).Ensures
      (fun after _ => node.KeepsBallot after) node.Spares := by
  unfold createSnapshot
  split
  · exact .refl node
  · rename_i entry _
    have spares := node.spares_storage.saveSnapshot
      { lastIncludedIndex := index, lastIncludedTerm := entry.term, data := data } saveFault
    unfold persistAndCompactSnapshotLocked
    split
    · rename_i written
      rw [written] at spares
      exact spares
    · rename_i written
      rw [written] at spares
      exact ⟨rfl, rfl, Or.inr ⟨rfl, rfl⟩, spares⟩
    · rename_i saved written
      rw [written] at spares
      have compacts := Spares.compactDurably spares
        { lastIncludedIndex := index, lastIncludedTerm := entry.term, data := data } compactFault
      split
      · rename_i compacted
        rw [compacted] at compacts
        exact compacts
      · rename_i compacted
        rw [compacted] at compacts
        exact ⟨rfl, rfl, Or.inr ⟨rfl, rfl⟩, compacts⟩
      · rename_i compacted
        rw [compacted] at compacts
        split
        · exact ⟨rfl, rfl, Or.inr ⟨rfl, rfl⟩, compacts⟩
        · exact ⟨rfl, rfl, Or.inr ⟨rfl, rfl⟩, compacts⟩

theorem propose_ensures (node : RaftNode) (data : Bytes) (fault : Fault) :
    (node.propose data fault).Ensures (fun after _ => node.KeepsBallot after) node.Spares := by
  unfold propose
  split
  · exact .refl node
  · have spares := node.spares_storage.appendEntries
      [{ index := node.log.lastIndex + 1, term := node.persistent.currentTerm, data := data }] fault
    dsimp only
    split
    · rename_i written
      rw [written] at spares
      exact spares
    · rename_i written
      rw [written] at spares
      exact ⟨rfl, rfl, Or.inl rfl, spares⟩
    · rename_i written
      rw [written] at spares
      exact ⟨rfl, rfl, Or.inr ⟨rfl, rfl⟩, spares⟩
    · rename_i written
      rw [written] at spares
      split
      · exact ⟨rfl, rfl, Or.inr ⟨rfl, rfl⟩, spares⟩
      · exact ⟨rfl, rfl, Or.inr ⟨rfl, rfl⟩, spares⟩

theorem handleAppendEntriesReply_ensures (node : RaftNode) (peerID : NodeID) (args : AppendEntriesArgs)
    (reply : AppendEntriesReply) (fault : Fault) :
    (node.handleAppendEntriesReply peerID args reply fault).Ensures
      (fun after _ => BallotMove node after) node.Spares := by
  have kept : ∀ after : RaftNode, after.id = node.id → after.persistent = node.persistent →
      after.role = node.role → after.votesReceived = node.votesReceived →
      after.storage = node.storage → BallotMove node after :=
    fun after id persistent role votes storage =>
      .keep ⟨id, persistent, Or.inr ⟨role, votes⟩, storage ▸ node.spares_storage⟩
  unfold handleAppendEntriesReply
  split
  · rename_i ahead
    exact (node.enterTerm_ensures fault ahead).andThen fun _ _ move => move
  · split
    · exact .keep (.refl node)
    · split
      · exact .keep (.refl node)
      · split
        · exact kept _ rfl rfl rfl rfl rfl
        · split
          · exact .keep (.refl node)
          · exact kept _ rfl rfl rfl rfl rfl

theorem handleInstallSnapshotReply_ensures (node : RaftNode) (peerID : NodeID)
    (args : InstallSnapshotArgs) (reply : InstallSnapshotReply) (fault : Fault) :
    (node.handleInstallSnapshotReply peerID args reply fault).Ensures
      (fun after _ => BallotMove node after) node.Spares := by
  unfold handleInstallSnapshotReply
  split
  · rename_i ahead
    exact (node.enterTerm_ensures fault ahead).andThen fun _ _ move => move
  · split
    · exact .keep (.refl node)
    · split
      · exact .keep (.refl node)
      · split
        · exact .keep (.refl node)
        · exact .keep ⟨rfl, rfl, Or.inr ⟨rfl, rfl⟩, node.spares_storage⟩

end RaftNode

end Raftiq
