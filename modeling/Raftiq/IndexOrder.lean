import Raftiq.LogMatching
import Raftiq.Raft.Applied

namespace Raftiq

namespace RaftNode

/-- What sections do to the counters: the commit index does not fall, and nothing is applied beyond it. -/
structure Advances (before after : RaftNode) : Prop where
  commit : before.commitIndex ≤ after.commitIndex
  applied : before.lastApplied ≤ before.commitIndex → after.lastApplied ≤ after.commitIndex

variable {node before after : RaftNode}

theorem Advances.refl (node : RaftNode) : node.Advances node :=
  ⟨le_rfl, fun ordered => ordered⟩

theorem Advances.trans {middle : RaftNode} (first : before.Advances middle) (second : middle.Advances after) :
    before.Advances after :=
  ⟨first.commit.trans second.commit, fun ordered => second.applied (first.applied ordered)⟩

theorem Advances.of_applied (applied : after.lastApplied = before.lastApplied)
    (commit : before.commitIndex ≤ after.commitIndex) : before.Advances after :=
  ⟨commit, fun ordered => applied.trans_le (ordered.trans commit)⟩

theorem CommitFrame.advances (frame : before.CommitFrame after) : before.Advances after :=
  .of_applied frame.applied frame.commit

section Sections

variable (node : RaftNode) (fault termFault otherFault : Fault)

theorem propose_advances (data : Bytes) :
    (node.propose data fault).Ensures (fun after _ => node.Advances after) fun _ => True := by
  unfold propose
  split
  · exact .refl node
  · dsimp only
    split
    · trivial
    · exact .of_applied rfl le_rfl
    · exact .of_applied rfl le_rfl
    · split
      · exact .of_applied rfl le_rfl
      · rename_i log _
        exact .of_applied rfl (commitFrame_advanceCommitIndexLocked { node with storage := _, log := log }).commit

theorem createSnapshot_advances (index : ℕ) (data : Bytes) :
    (node.createSnapshot index data termFault otherFault).Ensures (fun after _ => node.Advances after)
      fun _ => True := by
  unfold createSnapshot
  split
  · exact .refl node
  · unfold persistAndCompactSnapshotLocked
    split
    · trivial
    · exact .of_applied rfl le_rfl
    · split
      · trivial
      · exact .of_applied rfl le_rfl
      · split
        · exact .of_applied rfl le_rfl
        · exact .of_applied rfl le_rfl

theorem finishInstall_advances (install : PendingInstall) :
    (node.finishInstall install fault).Ensures (fun after _ => node.Advances after) fun _ => True := by
  unfold finishInstall
  dsimp only
  split
  · trivial
  · exact .of_applied rfl le_rfl
  · split
    · exact .of_applied rfl le_rfl
    · exact ⟨le_max_left _ _, fun ordered => max_le_max ordered le_rfl⟩

end Sections

end RaftNode

/-- The index that `applyCommitted` works on has been committed. -/
def ApplyStage.Within (commitIndex : ℕ) : ApplyStage → Prop
  | .idle => True
  | .picked index _ | .sent index => index ≤ commitIndex

theorem ApplyStage.Within.mono {stage : ApplyStage} {earlier later : ℕ} (within : stage.Within earlier)
    (grows : earlier ≤ later) : stage.Within later := by
  cases stage with
  | idle => trivial
  | picked index entry => exact Nat.le_trans within grows
  | sent index => exact Nat.le_trans within grows

namespace RaftNode

variable (node : RaftNode) (stateFault leaveFault : Fault)

theorem applyConfigurationEntryLocked_counters (entry : LogEntry) :
    (node.applyConfigurationEntryLocked entry stateFault leaveFault).Ensures
      (fun after _ => after.lastApplied = node.lastApplied ∧ node.commitIndex ≤ after.commitIndex)
      fun _ => True := by
  unfold applyConfigurationEntryLocked
  split
  · exact ⟨rfl, le_rfl⟩
  · cases stateFault with
    | none =>
        rw [persistState_none]
        simp only [Outcome.andThen_done, not_true_eq_false, if_false]
        split
        · exact (enterTerm_applies _ leaveFault _).mono (fun _ _ frame => ⟨frame.applied, frame.commit⟩)
            fun _ _ => trivial
        · exact ⟨rfl, le_rfl⟩
    | crash => trivial
    | writeFails | syncFails | diskFull => exact ⟨rfl, le_rfl⟩

theorem pickCommitted_advances :
    (node.pickCommitted stateFault leaveFault).Ensures
      (fun after stage => node.Advances after ∧ stage.Within after.commitIndex) fun _ => True := by
  unfold pickCommitted
  split
  · exact ⟨.refl node, trivial⟩
  · rename_i behind
    split
    · exact ⟨.refl node, trivial⟩
    · rename_i entry _
      split
      · refine (node.applyConfigurationEntryLocked_counters stateFault leaveFault entry).andThen
          fun middle applied counters => ?_
        obtain ⟨same, commit⟩ := counters
        cases applied with
        | false => exact ⟨.of_applied same commit, trivial⟩
        | true => exact ⟨⟨commit, fun _ => (not_le.mp behind).trans_le commit⟩, trivial⟩
      · exact ⟨.refl node, not_le.mp behind⟩

section Replicated

open Consensus

variable {node} {cluster : Cluster} {regime : Regime} {h : History} {v : NodeID} {args : AppendEntriesArgs}
  {termFault fault : Fault}

/-- What a follower has committed survives the entries that a leader sends. -/
theorem acceptEntries_advances (tracks : node.Tracks cluster regime h v) (valid : cluster.Valid h)
    (current : args.term = h.term v) (sound : args.Sound cluster regime h) (commits : regime.commits)
    (works : fault.Works) :
    (node.acceptEntries args fault).Ensures (fun after _ => node.Advances after) fun _ => True := by
  unfold acceptEntries
  split
  · exact .refl node
  · rename_i matched
    have follower : RaftNode.Tracks cluster regime h v
        { node with role := .follower, leaderID := args.leaderID } :=
      { tracks with
        stands := fun candidate => nomatch (candidate : Role.follower = .candidate)
        leads := fun leader => nomatch (leader : Role.follower = .leader) }
    have reconciled := reconcile_reconciled follower valid current sound (not_not.mp matched) works
    generalize { node with role := .follower, leaderID := args.leaderID
      }.reconcileReplicatedEntriesLocked args.entries fault = result at reconciled ⊢
    cases reconciled with
    | refused error synced contents kept => exact .of_applied rfl le_rfl
    | crashed contents either kept => trivial
    | @merged wal log entries views boundary synced contents kept =>
        obtain ⟨within, secured⟩ := tracks.commit commits
        rw [← current] at secured
        have reaches : node.commitIndex ≤ log.lastIndex := by
          rw [views.lastIndex]
          exact (valid.take_merge within secured sound.isSome _).2
        refine .of_applied rfl ?_
        rcases followCommit_cases
          { node with role := .follower, leaderID := args.leaderID, storage := wal, log := log }
          args.leaderCommit with same | ⟨above, _, ⟨raised, _⟩ | raised⟩
        · exact same.ge
        · exact above.le.trans raised.ge
        · exact reaches.trans raised.ge

theorem appendEntries_advances (tracks : node.Tracks cluster regime h v) (valid : cluster.Valid h)
    (sound : args.Sound cluster regime h) (commits : regime.commits) (works : termFault.Works)
    (worksToo : fault.Works) :
    (node.appendEntries args termFault fault).Ensures (fun after _ => node.Advances after) fun _ => True := by
  have term := tracks.term
  unfold appendEntries
  split
  · exact .refl node
  · split
    · rename_i ahead
      have follows := enterTerm_follows tracks valid (Or.inl ahead) works
      have frame := node.enterTerm_applies termFault args.term
      cases entered : node.enterTerm args.term termFault with
      | crashed wal => trivial
      | done middle durable =>
          rw [entered] at follows frame
          obtain ⟨later, moves, validLater, tracksLater, durable, current, _⟩ := follows
          rw [Outcome.andThen_done, if_pos durable]
          have accepted := acceptEntries_advances tracksLater validLater current.symm (sound.mono moves.keeps)
            commits worksToo
          exact accepted.mono (fun _ _ => frame.advances.trans) fun _ _ => trivial
    · exact acceptEntries_advances tracks valid (by omega) sound commits worksToo

end Replicated

end RaftNode

namespace Process

variable {process next : Process} {event : Event} {observations : List Observation}

structure Ordered (process : Process) : Prop where
  applied : process.node.lastApplied ≤ process.node.commitIndex
  stage : process.applying.Within process.node.commitIndex

theorem effect_advances (ordered : process.Ordered)
    (other : ∀ args purpose termFault logFault, event ≠ .receiveAppendEntries args purpose termFault logFault) :
    (process.effect event).Ensures (fun after _ => process.node.Advances after) fun _ => True := by
  have frames : ∀ {α : Type} {outcome : Outcome α}, outcome.Frames process.node →
      outcome.forget.Ensures (fun after _ => process.node.Advances after) fun _ => True :=
    fun frames => (frames.mono (fun _ _ => RaftNode.CommitFrame.advances) fun _ _ => trivial).forget
  cases event with
  | receiveAppendEntries args purpose termFault logFault => exact absurd rfl (other args purpose termFault logFault)
  | startElection fault => exact frames (process.node.startElection_applies fault)
  | receiveRequestVote args termFault voteFault =>
      exact frames (process.node.requestVote_applies termFault voteFault args)
  | receiveVoteReply args reply fault => exact frames (process.node.handleVoteReply_applies fault args.term reply)
  | tryBecomeLeader => exact frames process.node.tryBecomeLeader_applies
  | receiveAppendReply peerID args reply fault =>
      exact frames (process.node.handleAppendEntriesReply_applies fault peerID args reply)
  | receiveInstallSnapshot args termFault saveFault =>
      exact frames (process.node.installSnapshot_applies termFault saveFault args)
  | receiveInstallReply peerID args reply fault =>
      exact frames (process.node.handleInstallSnapshotReply_applies fault peerID args reply)
  | propose data fault => exact (process.node.propose_advances fault data).forget
  | createSnapshot index data saveFault compactFault =>
      exact (process.node.createSnapshot_advances saveFault compactFault index data).forget
  | finishInstall install fault => exact (process.node.finishInstall_advances fault install).forget
  | pickCommitted stateFault leaveFault =>
      exact ((process.node.pickCommitted_advances stateFault leaveFault).mono (fun _ _ picked => picked.1)
        fun _ _ => trivial).forget
  | markApplied =>
      cases stage : process.applying with
      | idle | picked index entry =>
          simp only [effect, stage]
          exact .refl process.node
      | sent index =>
          have within := ordered.stage
          simp only [effect, stage] at within ⊢
          refine ⟨le_rfl, fun ordered => ?_⟩
          unfold RaftNode.markApplied
          dsimp only
          split
          · exact within
          · exact ordered
  | receiveProbeResult read peerID result fault =>
      simp only [effect]
      split
      · exact frames (process.node.handleReadResult_applies fault _ peerID result)
      · exact .refl process.node
  | requestVotes | replicateTo peerID | sendApplied | sendInstallSnapshot peerID
  | restoreSnapshot install succeeds | beginRead read | probeRead read peerID | cancelRead read =>
      exact .refl process.node

theorem step_ordered (ordered : process.Ordered) (advances : process.node.Advances next.node)
    (stepped : process.step event = some (.running next observations)) : next.Ordered := by
  refine ⟨advances.applied ordered.applied, ?_⟩
  rcases (step_calls stepped).2.1 with same | ⟨stateFault, leaveFault, rfl⟩ | rfl | rfl
  · rw [same]
    exact ordered.stage.mono advances.commit
  · simp only [step] at stepped
    split at stepped
    · have picked := process.node.pickCommitted_advances stateFault leaveFault
      cases outcome : process.node.pickCommitted stateFault leaveFault with
      | crashed wal => simp [outcome, settleApply] at stepped
      | done node stage =>
          rw [outcome] at picked stepped
          cases stepped
          exact picked.2
    · cases stepped
  · have within := ordered.stage
    simp only [step] at stepped
    split at stepped
    · rename_i picked
      rw [picked] at within
      cases stepped
      exact within
    · cases stepped
  · simp only [step] at stepped
    split at stepped
    · cases stepped
      trivial
    · cases stepped

end Process

namespace Cluster

variable {cluster : Cluster} {world after : World} {v : NodeID}

/-- In a run that the history follows, no step of a node lowers its counters. -/
theorem act_advances {h : History} {process next : Process} {event : Event} {observations : List Observation}
    (tracks : world.Tracks cluster .compacting h) (up : world.host v = .up process) (ordered : process.Ordered)
    (works : event.NoStorageError) (arrives : world.Arrives v event)
    (stepped : process.step event = some (.running next observations)) : process.node.Advances next.node := by
  have running : process.Tracks cluster .compacting h v := by
    have host := tracks.host v
    rw [up] at host
    exact host
  cases event with
  | receiveAppendEntries args purpose termFault logFault =>
      have sound : args.Sound cluster .compacting h := by
        cases purpose with
        | replication => exact (tracks.sent arrives).1
        | probe read => exact (tracks.sent arrives).1
      exact Process.step_ensures stepped (RaftNode.appendEntries_advances running.node tracks.valid sound rfl
        (works termFault (by simp [Event.faults])) (works logFault (by simp [Event.faults]))).forget
  | _ => exact Process.step_ensures stepped (Process.effect_advances ordered (by simp))

theorem boot_ordered {wal : WALStorage} {process : Process} (booted : cluster.boot v wal = .ok process) :
    process.Ordered := by
  obtain ⟨log, _, rfl⟩ := boot_ok booted
  exact ⟨le_rfl, trivial⟩

theorem step_ordered {action : Action} {h : History} (tracks : world.Tracks cluster .compacting h)
    (ordered : ∀ w process, world.host w = .up process → process.Ordered)
    (allowed : world.Allows .compacting action) (stepped : cluster.step world action = some after)
    {process : Process} (up : after.host v = .up process) : process.Ordered := by
  rcases step_host stepped up with same | ⟨before, event, observations, running, rfl, arrives, ran⟩ |
    ⟨wal, reopened, keep, _, _, _, booted⟩
  · exact ordered v process same
  · have orderedBefore := ordered v before running
    exact Process.step_ordered orderedBefore
      (act_advances tracks running orderedBefore allowed.1 arrives ran) ran
  · exact boot_ordered booted

theorem reaches_ordered
    (reached : Reaches cluster.step (fun world action => world.Allows .compacting action) cluster.initial world) :
    (∃ h : History, world.Tracks cluster .compacting h) ∧
      ∀ w process, world.host w = .up process → process.Ordered := by
  refine reached.invariant (fun world => (∃ h : History, world.Tracks cluster .compacting h) ∧
    ∀ w process, world.host w = .up process → process.Ordered) ?_ ?_
  · refine ⟨⟨_, cluster.initial_tracks .compacting⟩, fun w process up => ?_⟩
    have booted : cluster.boot w (cluster.bootstrapped w) = .ok _ := rfl
    cases up
    exact boot_ordered booted
  · rintro before action after ⟨⟨h, tracks⟩, ordered⟩ allowed stepped
    obtain ⟨later, _, tracksAfter⟩ := step_tracks tracks allowed stepped
    exact ⟨⟨later, tracksAfter⟩, fun w process up => step_ordered tracks ordered allowed stepped up⟩

/-- The boundary, the applied index, the commit index and the last index of every running node are in
this order, and no step of a node that goes on running lowers the two in the middle. -/
theorem index_order (cluster : Cluster) {world : World}
    (reached : Reaches cluster.step (fun world action => world.Allows .compacting action) cluster.initial world)
    {v : NodeID} {process : Process} (up : world.host v = .up process) :
    process.node.log.lastIncludedIndex ≤ process.node.lastApplied ∧
      process.node.lastApplied ≤ process.node.commitIndex ∧
      process.node.commitIndex ≤ process.node.log.lastIndex ∧
      ∀ action after next, world.Allows .compacting action → cluster.step world action = some after →
        after.host v = .up next → process.node.commitIndex ≤ next.node.commitIndex ∧
          process.node.lastApplied ≤ next.node.lastApplied := by
  obtain ⟨⟨h, tracks⟩, ordered⟩ := reaches_ordered reached
  have running : process.Tracks cluster .compacting h v := by
    have host := tracks.host v
    rw [up] at host
    exact host
  have inside : process.node.commitIndex ≤ process.node.log.lastIndex := by
    rw [running.node.log.lastIndex]
    exact (running.node.commit rfl).1
  refine ⟨running.node.applied, (ordered v process up).applied, inside, ?_⟩
  intro action after next allowed stepped upAfter
  rcases step_host stepped upAfter with same | ⟨before, event, observations, upBefore, rfl, arrives, ran⟩ |
    ⟨wal, reopened, keep, down, _⟩
  · rw [up] at same
    cases same
    exact ⟨le_rfl, le_rfl⟩
  · rw [up] at upBefore
    cases upBefore
    have advances := act_advances tracks up (ordered v process up) allowed.1 arrives ran
    exact ⟨advances.commit, Process.step_ensures ran (process.effect_applied event)⟩
  · rw [up] at down
    cases down

/-- Where the boundary, the applied index, the commit index and the last index of a node are. -/
def standsAt (world : World) (v : NodeID) (boundary applied commit last : ℕ) : Bool :=
  (world.host v).process.any fun process =>
    process.node.log.lastIncludedIndex = boundary ∧ process.node.lastApplied = applied ∧
      process.node.commitIndex = commit ∧ process.node.log.lastIndex = last

theorem standsAt_up {boundary applied commit last : ℕ} (stands : standsAt world v boundary applied commit last) :
    ∃ process, world.host v = .up process ∧ process.node.log.lastIncludedIndex = boundary ∧
      process.node.lastApplied = applied ∧ process.node.commitIndex = commit ∧
      process.node.log.lastIndex = last := by
  obtain ⟨process, running, holds⟩ := (Option.any_eq_true _ _).mp stands
  exact ⟨process, Host.process_eq_some.mp running, of_decide_eq_true holds⟩

/-- The snapshot of entry 1 that `A` sends, and the call that waits for the handler. -/
def snapshotOne (term : ℕ) : InstallSnapshotArgs :=
  { term := term, leaderID := "A", lastIncludedIndex := 1, lastIncludedTerm := term, data := [9] }

def compactsOne : List Action :=
  [.act "A" (.pickCommitted .none .none), .act "A" .sendApplied, .act "A" .markApplied,
    .act "A" (.createSnapshot 1 [9] .none .none)]

/-- `C` installs a snapshot and then receives an entry. -/
theorem index_order_trio : ∃ (world : World) (process : Process), world.host "C" = .up process ∧
    process.node.log.lastIncludedIndex = 1 ∧ process.node.lastApplied ≤ process.node.commitIndex ∧
      process.node.commitIndex ≤ process.node.log.lastIndex ∧ process.node.log.lastIndex = 2 := by
  have run : ∃ world, Reaches trio.step (fun world action => world.Allows .compacting action) trio.initial
      world ∧ standsAt world "C" 1 1 1 2 :=
    Reaches.of_leadsTo (fun world action => decide (world.Allows .compacting action))
      (fun _ _ => of_decide_eq_true)
      (commitOne ++ compactsOne ++
        ([.act "A" (.sendInstallSnapshot "C"), .act "C" (.receiveInstallSnapshot (snapshotOne 1) .none .none),
          .act "C" (.restoreSnapshot ⟨snapshotOne 1, 1, false⟩ true),
          .act "C" (.finishInstall ⟨snapshotOne 1, 1, true⟩ .none),
          .act "A" (.receiveInstallReply "C" (snapshotOne 1) ⟨1, "C", true⟩ .none),
          .act "A" (.propose [8] .none), .act "A" (.replicateTo "C"),
          .act "C" (.receiveAppendEntries ⟨1, "A", 1, 1, [⟨2, 1, [8]⟩], 1⟩ .replication .none .none)] :
            List Action))
      (by decide +kernel)
  obtain ⟨world, reached, stands⟩ := run
  obtain ⟨process, up, boundary, _, _, last⟩ := standsAt_up stands
  obtain ⟨_, applied, committed, _⟩ := index_order trio reached up
  exact ⟨world, process, up, boundary, applied, committed, last⟩

/-- No storage error, no read and no configuration; a node crashes only when it installs no snapshot. -/
def undisturbed (world : World) : Action → Bool
  | .act _ event => (∀ fault ∈ event.faults, fault = .none) ∧ ¬ event.reads ∧ ¬ event.configures
  | .crash v => (world.host v).process.all fun process => process.installs = []
  | .restart _ _ => true

/-- `B` has an entry 1 of term 1 when `A`, the leader of term 2, sends a snapshot that ends with an entry
1 of term 2.  The handler of `B` fails; the snapshot stays in its storage beside the entry.  So when `B`
starts again it drops every entry that it has stored, and it does so once more after it has helped `A` to
commit entries 2 and 3.  `C` is elected without them and overwrites them. -/
theorem committed_entries_overwritten : ∃ (world : World) (process : Process),
    Reaches trio.step (fun world action => undisturbed world action) trio.initial world ∧
      world.host "A" = .up process ∧ process.node.log.lastIndex < process.node.commitIndex := by
  have run : ∃ world, Reaches trio.step (fun world action => undisturbed world action) trio.initial world ∧
      standsAt world "A" 1 1 3 2 :=
    Reaches.of_leadsTo undisturbed (fun _ _ allowed => allowed)
      (([.act "B" (.startElection .none), .act "B" .requestVotes,
        .act "C" (.receiveRequestVote ⟨1, "B", 0, 0⟩ .none .none),
        .act "B" (.receiveVoteReply ⟨1, "B", 0, 0⟩ ⟨1, "C", true⟩ .none), .act "B" .tryBecomeLeader,
        .act "B" (.propose [1] .none),
        .act "A" (.startElection .none), .act "A" (.startElection .none), .act "A" .requestVotes,
        .act "C" (.receiveRequestVote ⟨2, "A", 0, 0⟩ .none .none),
        .act "A" (.receiveVoteReply ⟨2, "A", 0, 0⟩ ⟨2, "C", true⟩ .none), .act "A" .tryBecomeLeader,
        .act "A" (.propose [2] .none), .act "A" (.replicateTo "C"),
        .act "C" (.receiveAppendEntries ⟨2, "A", 0, 0, [⟨1, 2, [2]⟩], 0⟩ .replication .none .none),
        .act "A" (.receiveAppendReply "C" ⟨2, "A", 0, 0, [⟨1, 2, [2]⟩], 0⟩ ⟨2, "C", true⟩ .none)] :
          List Action) ++ compactsOne ++
        ([.act "A" (.sendInstallSnapshot "B"), .act "B" (.receiveInstallSnapshot (snapshotOne 2) .none .none),
          .act "B" (.restoreSnapshot ⟨snapshotOne 2, 2, false⟩ false), .crash "B", .restart "B" 0,
          .act "B" (.receiveInstallSnapshot (snapshotOne 2) .none .none),
          .act "A" (.receiveInstallReply "B" (snapshotOne 2) ⟨2, "B", true⟩ .none),
          .act "A" (.propose [3] .none), .act "A" (.propose [4] .none), .act "A" (.replicateTo "B"),
          .act "B" (.receiveAppendEntries ⟨2, "A", 1, 2, [⟨2, 2, [3]⟩, ⟨3, 2, [4]⟩], 1⟩ .replication .none .none),
          .act "A" (.receiveAppendReply "B" ⟨2, "A", 1, 2, [⟨2, 2, [3]⟩, ⟨3, 2, [4]⟩], 1⟩ ⟨2, "B", true⟩ .none),
          .crash "B", .restart "B" 0,
          .act "C" (.startElection .none), .act "C" .requestVotes,
          .act "B" (.receiveRequestVote ⟨3, "C", 1, 2⟩ .none .none),
          .act "C" (.receiveVoteReply ⟨3, "C", 1, 2⟩ ⟨3, "B", true⟩ .none), .act "C" .tryBecomeLeader,
          .act "C" (.propose [5] .none), .act "C" (.replicateTo "A"),
          .act "A" (.receiveAppendEntries ⟨3, "C", 1, 2, [⟨2, 3, [5]⟩], 0⟩ .replication .none .none)] :
            List Action))
      (by decide +kernel)
  obtain ⟨world, reached, stands⟩ := run
  obtain ⟨process, up, _, _, commit, last⟩ := standsAt_up stands
  exact ⟨world, process, reached, up, by omega⟩

end Cluster

end Raftiq
