import Raftiq.Raft.TermOrder
import Raftiq.Refinement.Restart

namespace Raftiq

open Consensus

variable {cluster : Cluster} {regime : Regime} {h later : History} {v : NodeID}

namespace Process

/-- The sections whose effect the history can follow in runs of this kind. -/
def Allows (regime : Regime) (process : Process) : Event → Prop
  | .propose data _ => ¬ isConfigurationEntry data
  | .replicateTo peerID => regime.compacts → ¬ process.node.sendsBoundary peerID
  | .receiveAppendEntries args (.probe _) _ _ => process.node.Fits regime args
  | .createSnapshot _ _ _ _ => regime.compacts ∧ regime.commits
  | .receiveProbeResult read _ (.answered reply) _ =>
      ∀ pending ∈ process.reads read, pending.term < reply.term → process.node.persistent.CanEnter reply.term
  | _ => True

instance (regime : Regime) (process : Process) : DecidablePred (process.Allows regime)
  | .propose data _ => inferInstanceAs (Decidable (¬ isConfigurationEntry data))
  | .replicateTo peerID =>
      inferInstanceAs (Decidable (regime.compacts → ¬ process.node.sendsBoundary peerID))
  | .receiveAppendEntries args (.probe _) _ _ => inferInstanceAs (Decidable (process.node.Fits regime args))
  | .createSnapshot _ _ _ _ => inferInstanceAs (Decidable (regime.compacts ∧ regime.commits))
  | .receiveProbeResult read _ (.answered reply) _ =>
      inferInstanceAs (Decidable (∀ pending ∈ process.reads read, pending.term < reply.term →
        process.node.persistent.CanEnter reply.term))
  | .startElection _ | .requestVotes | .receiveRequestVote _ _ _ | .receiveVoteReply _ _ _
  | .tryBecomeLeader | .receiveAppendEntries _ .replication _ _ | .receiveAppendReply _ _ _ _
  | .pickCommitted _ _ | .sendApplied | .markApplied | .sendInstallSnapshot _
  | .receiveInstallSnapshot _ _ _ | .restoreSnapshot _ _ | .finishInstall _ _
  | .receiveInstallReply _ _ _ _ | .beginRead _ | .probeRead _ _ | .receiveProbeResult _ _ .failed _
  | .cancelRead _ => .isTrue trivial

variable {process : Process} {α : Type} {outcome : Outcome α}

theorem Tracks.withNode (tracks : process.Tracks cluster regime h v) (moves : h.Moves v later)
    {node : RaftNode} (running : node.Tracks cluster regime later v) :
    (process.withNode node).Tracks cluster regime later v where
  node := running
  picked commits index entry picked := (tracks.picked commits index entry picked).mono moves.keeps
  installs install member := by
    obtain ⟨sound, reached, behind⟩ := tracks.installs install member
    have onward := moves.keeps.term_le v
    refine ⟨sound.mono moves.keeps, reached.trans onward, fun stands => ?_⟩
    cases moves.fresh stands with
    | inl earlier => exact (behind earlier).trans_le onward
    | inr ahead => exact reached.trans_lt ahead
  reads commits read pending found := (tracks.reads commits read pending found).mono moves.keeps le_rfl

/-- What the history says about a result, after some steps of the node. -/
def Follows (cluster : Cluster) (regime : Regime) (h : History) (v : NodeID) (result : Result) : Prop :=
  ∃ later : History, h.Moves v later ∧ cluster.Valid later ∧ result.Tracks cluster regime later v

theorem follows_running {observations : List Observation} (valid : cluster.Valid h)
    (tracks : process.Tracks cluster regime h v)
    (seen : ∀ observation ∈ observations, observation.Sound cluster regime h v) :
    Follows cluster regime h v (.running process observations) :=
  ⟨h, .refl h v, valid, tracks, seen⟩

theorem settle_follows {done : History → RaftNode → α → Prop} {observe : RaftNode → α → List Observation}
    (tracks : process.Tracks cluster regime h v) (follows : outcome.Follows cluster regime h v done)
    (seen : ∀ later node result, h.Moves v later → node.Tracks cluster regime later v →
      done later node result → ∀ observation ∈ observe node result, observation.Sound cluster regime later v) :
    Follows cluster regime h v (process.settle outcome observe) := by
  cases outcome with
  | crashed wal => exact follows
  | done node result =>
      obtain ⟨later, moves, valid, running, known⟩ := follows
      exact ⟨later, moves, valid, tracks.withNode moves running, seen later node result moves running known⟩

theorem sendAppend_follows {args : Option AppendEntriesArgs} {message : AppendEntriesArgs → Message}
    (tracks : process.Tracks cluster regime h v) (valid : cluster.Valid h)
    (sound : ∀ built, args = some built → (message built).Sound cluster regime h ∧
      (Observation.builtFrom built process.node.log).Sound cluster regime h v) :
    Follows cluster regime h v (process.sendAppend args message) := by
  apply follows_running valid tracks
  cases args with
  | none => simp
  | some built =>
      intro observation member
      simp only [List.mem_cons, List.not_mem_nil, or_false] at member
      rcases member with rfl | rfl
      · exact (sound built rfl).1
      · exact (sound built rfl).2

theorem Tracks.withStage (tracks : process.Tracks cluster regime h v) {stage : ApplyStage}
    (picked : regime.commits → ∀ index entry, stage = .picked index entry → EntrySound cluster h entry) :
    Process.Tracks cluster regime h v { process with applying := stage } :=
  { tracks with picked := picked }

theorem Tracks.withInstalls (tracks : process.Tracks cluster regime h v) {installs : List PendingInstall}
    (sound : ∀ install ∈ installs, install.Sound cluster regime h v) :
    Process.Tracks cluster regime h v { process with installs := installs } :=
  { tracks with installs := sound }

theorem Tracks.withRead (tracks : process.Tracks cluster regime h v) (read : ℕ) {entry : Option PendingRead}
    (sound : regime.commits → ∀ pending, entry = some pending →
      CommitSound cluster h pending.term pending.commitIndex) :
    Process.Tracks cluster regime h v
      { process with reads := Function.update process.reads read entry } := by
  refine { tracks with reads := fun commits other pending found => ?_ }
  rcases Decidable.eq_or_ne other read with rfl | different
  · simp only [Function.update_self] at found
    exact sound commits pending found
  · simp only [Function.update_of_ne different] at found
    exact tracks.reads commits other pending found

/-- A read that waits on carries the commit index it began with. -/
theorem Tracks.settleRead (tracks : process.Tracks cluster regime h v) (read : ℕ) {progress : ReadProgress}
    (waits : regime.commits → ∀ pending, progress = .waiting pending →
      CommitSound cluster h pending.term pending.commitIndex) :
    (process.settleRead read progress).1.Tracks cluster regime h v ∧
      ∀ observation ∈ (process.settleRead read progress).2, observation.Sound cluster regime h v := by
  cases progress with
  | waiting pending =>
      refine ⟨tracks.withRead read fun commits same found => ?_, fun _ none => (nomatch none)⟩
      cases found
      exact waits commits pending rfl
  | returned result =>
      refine ⟨tracks.withRead read fun _ _ none => (nomatch none), ?_⟩
      simp [Process.settleRead, Observation.Sound]

end Process

namespace RaftNode

variable {node : RaftNode} {fault : Fault}

/-- A waiting read keeps its term and its index. -/
theorem nextRound_waiting {read pending : PendingRead} (waits : nextRound read = .waiting pending) :
    pending = read := by
  unfold nextRound at waits
  split at waits
  · simp at waits
  · cases waits
    rfl

theorem handleReadResult_follows {read : PendingRead} (peerID : NodeID) {result : ProbeResult}
    (tracks : node.Tracks cluster regime h v) (valid : cluster.Valid h)
    (enters : ∀ reply, result = .answered reply → read.term < reply.term →
      node.persistent.CanEnter reply.term) (works : fault.Works) :
    (node.handleReadResult read peerID result fault).Follows cluster regime h v
      (fun _ _ progress => ∀ pending, progress = .waiting pending →
        pending.term = read.term ∧ pending.commitIndex = read.commitIndex) := by
  have waits : ∀ (round : PendingRead), round.term = read.term → round.commitIndex = read.commitIndex →
      ∀ pending, nextRound round = .waiting pending →
        pending.term = read.term ∧ pending.commitIndex = read.commitIndex := by
    intro round sameTerm sameIndex pending waiting
    cases nextRound_waiting waiting
    exact ⟨sameTerm, sameIndex⟩
  unfold handleReadResult
  dsimp only
  cases result with
  | failed => exact Outcome.follows_done valid tracks (waits _ rfl rfl)
  | answered reply =>
      dsimp only
      split
      · rename_i higher
        apply (enterTerm_follows tracks valid (enters reply rfl higher) works).andThen
        intro later after durable _ validLater tracksLater _
        exact Outcome.follows_done validLater tracksLater fun _ waiting => by simp at waiting
      · split
        · exact Outcome.follows_done valid tracks (waits _ rfl rfl)
        · split
          · exact Outcome.follows_done valid tracks (waits _ rfl rfl)
          · apply Outcome.follows_done valid tracks
            unfold confirmRead
            split
            · exact fun _ waiting => by simp at waiting
            · exact fun _ waiting => by simp at waiting

theorem Tracks.markApplied (tracks : node.Tracks cluster regime h v) (index : ℕ) :
    (node.markApplied index).Tracks cluster regime h v := by
  have applied := tracks.applied
  refine { tracks with stands := ?_, leads := ?_, applied := ?_ }
  · exact fun candidate => ⟨(tracks.stands candidate).stands, (tracks.stands candidate).vacant,
      (tracks.stands candidate).votes⟩
  · exact fun leader => ⟨(tracks.leads leader).leads, (tracks.leads leader).own,
      (tracks.leads leader).bounded, (tracks.leads leader).matched⟩
  · change node.log.lastIncludedIndex ≤ if node.lastApplied < index then index else node.lastApplied
    split
    · omega
    · exact applied

/-- What replication sends fits the follower that receives it. -/
theorem fits_of_sent {args : AppendEntriesArgs} (node : RaftNode)
    (short : regime.commits → args.leaderCommit ≤ args.prevLogIndex + args.entries.length) :
    node.Fits regime args :=
  fun commits => Or.inl ((short commits).trans (Nat.le_max_right _ _))

end RaftNode

namespace Process

variable {process : Process} {world : World} {event : Event} {result : Result}

section Sections

variable (tracks : process.Tracks cluster regime h v) (valid : cluster.Valid h)

include tracks valid

theorem replicateTo_follows {peerID : NodeID}
    (regular : regime.compacts → ¬ process.node.sendsBoundary peerID) :
    Follows cluster regime h v
      (process.sendAppend (process.node.buildAppendEntries peerID) (.appendEntries peerID)) := by
  have inside : ¬ process.node.sendsBoundary peerID := by
    cases tracks.node.shows.2 with
    | inl compacts => exact regular compacts
    | inr zero => exact fun sends => by simp [RaftNode.sendsBoundary, zero] at sends
  apply sendAppend_follows tracks valid
  intro args built
  obtain ⟨sound, short, source⟩ := RaftNode.buildAppendEntries_sound tracks.node valid built inside
  exact ⟨⟨sound, short⟩, source⟩

theorem probeRead_follows {read : ℕ} {pending : PendingRead} {peerID : NodeID}
    (found : process.reads read = some pending) :
    Follows cluster regime h v
      (process.sendAppend (process.node.probeReadIndex pending peerID) (.probe read peerID)) := by
  apply sendAppend_follows tracks valid
  intro args built
  obtain ⟨sound, empty, _, source⟩ := RaftNode.probeReadIndex_sound tracks.node valid
    (fun commits => tracks.reads commits read pending found) built
  exact ⟨⟨sound, empty⟩, source⟩

theorem receiveAppendEntries_follows {args : AppendEntriesArgs} {purpose : AppendPurpose}
    {termFault logFault : Fault} (sound : args.Sound cluster regime h) (fits : process.node.Fits regime args)
    (works : termFault.Works) (worksToo : logFault.Works) :
    Follows cluster regime h v (process.settle (process.node.appendEntries args termFault logFault)
      fun node reply => [.sent (appendAnswer purpose node args reply)]) := by
  apply settle_follows tracks (RaftNode.appendEntries_follows tracks.node valid sound fits works worksToo)
  intro later node reply moves running accepted
  rw [List.forall_mem_singleton, Observation.Sound]
  cases purpose with
  | replication =>
      refine ⟨sound.mono moves.keeps, ?_⟩
      rw [running.id]
      exact fun success => (accepted success).acked
  | probe read => trivial

omit valid in
theorem beginRead_follows (read : ℕ) :
    (process.settleRead read process.node.beginReadIndex).1.Tracks cluster regime h v ∧
      ∀ observation ∈ (process.settleRead read process.node.beginReadIndex).2,
        observation.Sound cluster regime h v := by
  apply tracks.settleRead read
  intro commits pending waits
  unfold RaftNode.beginReadIndex at waits
  split at waits
  · simp at waits
  · split at waits
    · simp at waits
    · split at waits
      · simp at waits
      · split at waits
        · simp at waits
        · cases waits
          rw [tracks.node.term]
          exact tracks.node.commitSound commits

theorem receiveProbeResult_follows {read : ℕ} {pending : PendingRead} {peerID : NodeID} {answer : ProbeResult}
    {fault : Fault} (found : process.reads read = some pending)
    (enters : ∀ reply, answer = .answered reply → pending.term < reply.term →
      process.node.persistent.CanEnter reply.term) (works : fault.Works) :
    Follows cluster regime h v
      (process.settleReadOutcome read (process.node.handleReadResult pending peerID answer fault)) := by
  have follows := RaftNode.handleReadResult_follows peerID tracks.node valid enters works
  cases outcome : process.node.handleReadResult pending peerID answer fault with
  | crashed wal =>
      rw [outcome] at follows
      exact follows
  | done node progress =>
      rw [outcome] at follows
      obtain ⟨later, moves, validLater, running, same⟩ := follows
      have onward := tracks.withNode moves running
      refine ⟨later, moves, validLater, onward.settleRead read fun commits waiting waits => ?_⟩
      obtain ⟨sameTerm, sameIndex⟩ := same waiting waits
      rw [sameTerm, sameIndex]
      exact (tracks.reads commits read pending found).mono moves.keeps le_rfl

theorem receiveInstallSnapshot_follows {args : InstallSnapshotArgs} {termFault saveFault : Fault}
    (sound : args.Sound cluster regime h) (works : termFault.Works) (worksToo : saveFault.Works) :
    Follows cluster regime h v
      (process.settleInstall args (process.node.installSnapshot args termFault saveFault)) := by
  have follows := RaftNode.installSnapshot_follows tracks.node valid sound works worksToo
  cases outcome : process.node.installSnapshot args termFault saveFault with
  | crashed wal =>
      rw [outcome] at follows
      exact follows
  | done node answer =>
      rw [outcome] at follows
      obtain ⟨later, moves, validLater, running, known, soundLater⟩ := follows
      have onward := tracks.withNode moves running
      cases answer with
      | replied reply =>
          exact ⟨later, moves, validLater, onward, List.forall_mem_singleton.mpr soundLater⟩
      | pending install =>
          refine ⟨later, moves, validLater, { onward with installs := ?_ }, by simp⟩
          intro other member
          cases List.mem_cons.mp member with
          | inl new => exact new ▸ known
          | inr old => exact onward.installs other old

end Sections

/-- Whatever a node does, the history can follow. -/
theorem step_follows (tracks : process.Tracks cluster regime h v) (valid : cluster.Valid h)
    (allowed : process.Allows regime event) (works : event.NoStorageError)
    (sent : ∀ message, world.WasSent message → message.Sound cluster regime h)
    (arrives : world.Arrives v event) (stepped : process.step event = some result) :
    Follows cluster regime h v result := by
  cases event with
  | startElection fault =>
      cases stepped
      exact settle_follows tracks
        (RaftNode.startElection_follows tracks.node valid (works fault (by simp [Event.faults])))
        (by simp)
  | requestVotes =>
      cases stepped
      apply follows_running valid tracks
      split
      · simp
      · rename_i args asked
        simp only [List.forall_mem_map]
        exact fun peerID _ => RaftNode.requestVotes_sound tracks.node valid asked peerID
  | receiveRequestVote args termFault voteFault =>
      cases stepped
      apply settle_follows tracks (RaftNode.requestVote_follows tracks.node valid (sent _ arrives)
        (works termFault (by simp [Event.faults])) (works voteFault (by simp [Event.faults])))
      exact fun later node reply _ _ known => List.forall_mem_singleton.mpr known
  | receiveVoteReply args reply fault =>
      cases stepped
      exact settle_follows tracks (RaftNode.handleVoteReply_follows tracks.node valid arrives.1
        (sent _ arrives.2) (works fault (by simp [Event.faults]))) (by simp)
  | tryBecomeLeader =>
      cases stepped
      exact settle_follows tracks (RaftNode.tryBecomeLeader_follows tracks.node valid)
        fun _ _ _ _ _ known => known
  | propose data fault =>
      cases stepped
      exact settle_follows tracks (RaftNode.propose_follows tracks.node valid allowed
        (works fault (by simp [Event.faults]))) fun _ _ _ _ _ known => known
  | replicateTo peerID =>
      cases stepped
      exact replicateTo_follows tracks valid allowed
  | receiveAppendEntries args purpose termFault logFault =>
      cases stepped
      have known : args.Sound cluster regime h ∧ process.node.Fits regime args := by
        cases purpose with
        | replication =>
            obtain ⟨sound, short⟩ := sent _ arrives
            exact ⟨sound, process.node.fits_of_sent short⟩
        | probe read => exact ⟨(sent _ arrives).1, allowed⟩
      exact receiveAppendEntries_follows tracks valid known.1 known.2
        (works termFault (by simp [Event.faults])) (works logFault (by simp [Event.faults]))
  | receiveAppendReply peerID args reply fault =>
      cases stepped
      exact settle_follows tracks (RaftNode.handleAppendEntriesReply_follows tracks.node valid
        (sent _ arrives.2) (works fault (by simp [Event.faults]))) fun _ _ _ _ _ known => known
  | pickCommitted stateFault leaveFault =>
      simp only [step] at stepped
      split at stepped
      · obtain ⟨stage, done, picked⟩ := RaftNode.pickCommitted_tracks tracks.node valid stateFault leaveFault
        rw [done] at stepped
        cases stepped
        exact follows_running valid (tracks.withStage picked) (by simp)
      · simp at stepped
  | sendApplied =>
      simp only [step] at stepped
      split at stepped
      · rename_i index entry picking
        cases stepped
        exact follows_running valid (tracks.withStage fun _ _ _ other => by cases other)
          (List.forall_mem_singleton.mpr fun commits => tracks.picked commits index entry picking)
      · simp at stepped
  | markApplied =>
      simp only [step] at stepped
      split at stepped
      · rename_i index _
        cases stepped
        have marked := tracks.withNode (.refl h v) (tracks.node.markApplied index)
        exact follows_running valid (marked.withStage fun _ _ _ other => by cases other) (by simp)
      · simp at stepped
  | createSnapshot index data saveFault compactFault =>
      cases stepped
      exact settle_follows tracks (RaftNode.createSnapshot_follows tracks.node valid allowed.1 allowed.2
        (works saveFault (by simp [Event.faults])) (works compactFault (by simp [Event.faults]))) (by simp)
  | sendInstallSnapshot peerID =>
      cases stepped
      apply follows_running valid tracks
      split
      · simp
      · rename_i args built
        exact List.forall_mem_singleton.mpr (RaftNode.buildInstallSnapshot_sound tracks.node built)
  | receiveInstallSnapshot args termFault saveFault =>
      cases stepped
      exact receiveInstallSnapshot_follows tracks valid (sent _ arrives)
        (works termFault (by simp [Event.faults])) (works saveFault (by simp [Event.faults]))
  | restoreSnapshot install succeeds =>
      simp only [step] at stepped
      split at stepped
      · rename_i waiting
        have known := tracks.installs install waiting.1
        have others : ∀ other ∈ process.installs.erase install, other.Sound cluster regime h v :=
          fun other member => tracks.installs other (List.mem_of_mem_erase member)
        split at stepped
        · cases stepped
          exact follows_running valid (tracks.withInstalls (List.forall_mem_cons.mpr ⟨known, others⟩)) (by simp)
        · cases stepped
          exact follows_running valid (tracks.withInstalls others) (List.forall_mem_singleton.mpr known.1)
      · simp at stepped
  | finishInstall install fault =>
      simp only [step] at stepped
      split at stepped
      · rename_i waiting
        cases stepped
        have others : ∀ other ∈ process.installs.erase install, other.Sound cluster regime h v :=
          fun other member => tracks.installs other (List.mem_of_mem_erase member)
        apply settle_follows (tracks.withInstalls others) (RaftNode.finishInstall_follows tracks.node valid
          (tracks.installs install waiting.1) (works fault (by simp [Event.faults])))
        exact fun _ _ _ _ _ known => List.forall_mem_singleton.mpr known
      · simp at stepped
  | receiveInstallReply peerID args reply fault =>
      cases stepped
      exact settle_follows tracks (RaftNode.handleInstallSnapshotReply_follows tracks.node valid
        (sent _ arrives.2) (works fault (by simp [Event.faults]))) fun _ _ _ _ _ known => known
  | beginRead read =>
      simp only [step] at stepped
      split at stepped
      · simp at stepped
      · cases stepped
        obtain ⟨onward, seen⟩ := beginRead_follows tracks read
        exact follows_running valid onward (List.forall_mem_cons.mpr ⟨trivial, seen⟩)
  | probeRead read peerID =>
      simp only [step] at stepped
      split at stepped
      · simp at stepped
      · rename_i pending found
        split at stepped
        · cases stepped
          exact probeRead_follows tracks valid found
        · simp at stepped
  | receiveProbeResult read peerID answer fault =>
      simp only [step] at stepped
      split at stepped
      · simp at stepped
      · rename_i pending found
        split at stepped
        · cases stepped
          refine receiveProbeResult_follows tracks valid found ?_ (works fault (by simp [Event.faults]))
          rintro reply rfl
          exact allowed pending found
        · simp at stepped
  | cancelRead read =>
      simp only [step] at stepped
      split at stepped
      · simp at stepped
      · cases stepped
        exact follows_running valid (tracks.withRead read fun _ _ none => by cases none) (by simp)

end Process

def Host.Allows (regime : Regime) (event : Event) : Host → Prop
  | .up process => process.Allows regime event
  | .down _ => True

instance (regime : Regime) (event : Event) : DecidablePred (Host.Allows regime event)
  | .up process => inferInstanceAs (Decidable (process.Allows regime event))
  | .down _ => .isTrue trivial

/-- Whether a node that finds `keep` records after a crash restarts from consistent storage. -/
def Host.SnapshotAgrees (keep : ℕ) : Host → Prop
  | .up _ => True
  | .down wal => (replay Contents.empty (wal.file.take (max wal.synced keep))).SnapshotAgrees

instance (keep : ℕ) : DecidablePred (Host.SnapshotAgrees keep)
  | .up _ => .isTrue trivial
  | .down wal =>
      inferInstanceAs (Decidable (replay Contents.empty (wal.file.take (max wal.synced keep))).SnapshotAgrees)

/-- The steps of a cluster that the history can follow in runs of this kind. -/
def World.Allows (regime : Regime) (world : World) : Action → Prop
  | .act v event => event.NoStorageError ∧ (world.host v).Allows regime event
  | .crash _ => True
  | .restart v keep =>
      (world.host v).ReadsSynced keep ∧ (regime.compacts → (world.host v).SnapshotAgrees keep)

instance (regime : Regime) (world : World) : DecidablePred (world.Allows regime)
  | .act v event =>
      inferInstanceAs (Decidable (event.NoStorageError ∧ (world.host v).Allows regime event))
  | .crash _ => .isTrue trivial
  | .restart v keep =>
      inferInstanceAs (Decidable
        ((world.host v).ReadsSynced keep ∧ (regime.compacts → (world.host v).SnapshotAgrees keep)))

theorem World.Tracks.sent {world : World} (tracks : world.Tracks cluster regime h) {message : Message}
    (wasSent : world.WasSent message) : message.Sound cluster regime h := by
  obtain ⟨entry, member, same⟩ := wasSent
  have sound := tracks.trace entry member
  rw [same] at sound
  exact sound

namespace Cluster

variable {world after final : World}

theorem initial_tracks (cluster : Cluster) (regime : Regime) :
    cluster.initial.Tracks cluster regime Ledger.empty where
  valid := cluster.empty_valid
  host v := by
    have booted : cluster.boot v (cluster.bootstrapped v) = .ok _ := rfl
    have restored : RaftNode.restoreLog (cluster.bootstrapped v).contents = .ok Log.new := rfl
    have stored : Stored cluster regime Ledger.empty v 0 none [] 0 (cluster.bootstrapped v).contents :=
      { sameTerm := rfl
        sameVote := rfl
        membership := rfl
        missing := fun _ => rfl
        snapshot := fun _ found => (nomatch found)
        entries := .whole rfl }
    exact boot_tracks booted rfl restored Log.new_views rfl .nil stored (.whole rfl)
  trace entry member := by simp [initial] at member

/-- A step of the cluster moves one node of the history. -/
theorem step_moves {action : Action} (tracks : world.Tracks cluster regime h)
    (allowed : world.Allows regime action) (stepped : cluster.step world action = some after) :
    ∃ (v : NodeID) (later : History), h.Moves v later ∧ after.Tracks cluster regime later := by
  have sent : ∀ message, world.WasSent message → message.Sound cluster regime h :=
    fun _ wasSent => tracks.sent wasSent
  cases action with
  | act v event =>
      obtain ⟨process, up, arrives, outcome⟩ := step_act stepped
      obtain ⟨works, permitted⟩ := allowed
      have running := tracks.host v
      rw [up] at running permitted
      rcases outcome with ⟨next, observations, ran, rfl⟩ | ⟨wal, crashed, rfl⟩
      · obtain ⟨later, moves, valid, onward, seen⟩ := Process.step_follows running tracks.valid
          permitted works sent arrives ran
        exact ⟨v, later, moves, tracks.update moves valid onward seen⟩
      · obtain ⟨later, moves, valid, lost⟩ := Process.step_follows running tracks.valid
          permitted works sent arrives crashed
        exact ⟨v, later, moves, tracks.update moves valid lost (by simp)⟩
  | crash v =>
      obtain ⟨process, up, rfl⟩ := step_crash stepped
      have running : process.Tracks cluster regime h v := by
        have host := tracks.host v
        rw [up] at host
        exact host
      exact ⟨v, h, .refl h v, tracks.update (.refl h v) tracks.valid running.node.survives (by simp)⟩
  | restart v keep =>
      obtain ⟨wal, reopened, process, down, opened, booted, rfl⟩ := step_restart stepped
      have stored : wal.Tracks cluster regime h v := by
        have host := tracks.host v
        rw [down] at host
        exact host
      obtain ⟨reads, consistent⟩ := allowed
      rw [down] at reads
      obtain ⟨_, _, _, _, _, known⟩ := stored _ (WALStorage.reopen_survives opened)
      have agrees : reopened.contents.SnapshotAgrees := by
        cases saved : reopened.contents.snapshot with
        | none => exact Or.inl (by simp [Contents.loadSnapshot, saved])
        | some snapshot =>
            have agrees := consistent (known.snapshot snapshot saved).1
            rw [down] at agrees
            rw [WALStorage.reopen_contents opened]
            exact agrees
      obtain ⟨later, moves, valid, running⟩ := restart_tracks tracks.valid stored opened reads booted agrees
      exact ⟨v, later, moves, tracks.update moves valid running (by simp)⟩

theorem step_tracks {action : Action} (tracks : world.Tracks cluster regime h)
    (allowed : world.Allows regime action) (stepped : cluster.step world action = some after) :
    ∃ later : History, h.Extends later ∧ after.Tracks cluster regime later := by
  obtain ⟨_, later, moves, tracksAfter⟩ := step_moves tracks allowed stepped
  exact ⟨later, moves.keeps, tracksAfter⟩

/-- A run leads from one history to another that extends it. -/
theorem reaches_tracks
    (reached : Reaches cluster.step (fun world action => world.Allows regime action) world final)
    (tracks : world.Tracks cluster regime h) :
    ∃ later : History, h.Extends later ∧ final.Tracks cluster regime later := by
  refine reached.invariant (fun final => ∃ later, h.Extends later ∧ final.Tracks cluster regime later)
    ⟨h, .refl h, tracks⟩ ?_
  intro before action after earlier allowed stepped
  obtain ⟨middle, keeps, tracksBefore⟩ := earlier
  obtain ⟨later, keepsToo, tracksAfter⟩ := step_tracks tracksBefore allowed stepped
  exact ⟨later, keeps.trans keepsToo, tracksAfter⟩

end Cluster

end Raftiq
