import Raftiq.Raft.Ballot
import Raftiq.Raft.Effect
import Raftiq.Cluster

namespace Raftiq

namespace PersistentState

/-- The terms that can be entered without giving up a vote. -/
def CanEnter (state : PersistentState) (term : ℕ) : Prop :=
  state.currentTerm < term ∨ state.currentTerm = term ∧ state.votedFor = ""

instance (state : PersistentState) (term : ℕ) : Decidable (state.CanEnter term) :=
  inferInstanceAs (Decidable (_ ∨ _))

theorem precedes_enterTerm_iff {state : PersistentState} {term : ℕ} :
    state.Precedes (state.enterTerm term) ↔ state.CanEnter term := by
  constructor
  · rintro (ahead | ⟨same, none | kept⟩)
    · exact Or.inl ahead
    · exact Or.inr ⟨same, none⟩
    · exact Or.inr ⟨same, kept.symm⟩
  · rintro (ahead | ⟨same, none⟩)
    · exact Or.inl ahead
    · exact Or.inr ⟨same, Or.inl none⟩

theorem precedes_iff {before after : PersistentState} :
    before.Precedes after ↔
      before.currentTerm ≤ after.currentTerm ∧
        (after.currentTerm = before.currentTerm → before.votedFor ≠ "" →
          after.votedFor = before.votedFor) := by
  constructor
  · rintro (ahead | ⟨same, vote⟩)
    · exact ⟨ahead.le, fun same => absurd same ahead.ne'⟩
    · exact ⟨same.le, fun _ cast => vote.resolve_left cast⟩
  · rintro ⟨reached, kept⟩
    rcases Nat.lt_or_eq_of_le reached with ahead | same
    · exact Or.inl ahead
    · exact Or.inr ⟨same, or_iff_not_imp_left.mpr (kept same.symm)⟩

theorem precedes_of_ballot_eq {before after : PersistentState}
    (term : after.currentTerm = before.currentTerm) (vote : after.votedFor = before.votedFor) :
    before.Precedes after :=
  Or.inr ⟨term.symm, Or.inr vote⟩

end PersistentState

namespace RaftNode

/-- The next committed entry takes a leader out of its own cluster. -/
def removesItself (node : RaftNode) : Bool :=
  decide (node.lastApplied < node.commitIndex) &&
    match node.log.get (node.lastApplied + 1) with
    | none => false
    | some entry =>
        isConfigurationEntry entry.data &&
          match nextMembership entry with
          | .error _ => false
          | .ok membership => node.mustLeave membership

theorem persistState_none (node : RaftNode) (state : PersistentState) :
    node.persistState state .none =
      .done
        { node with
          storage := (node.storage.appendRecord (.state state)).sync
          persistent := state }
        true := rfl

/-- A storage call that does not succeed publishes nothing. -/
theorem persistState_unpublished (node : RaftNode) (state : PersistentState) {fault : Fault}
    (faulty : fault ≠ .none) :
    (node.persistState state fault).Ensures
      (fun after durable => durable = false ∧ after.persistent = node.persistent) (fun _ => True) := by
  cases fault with
  | none => exact absurd rfl faulty
  | writeFails => exact ⟨rfl, rfl⟩
  | syncFails => exact ⟨rfl, rfl⟩
  | diskFull => exact ⟨rfl, rfl⟩
  | crash => trivial

theorem becomeFollowerLocked_precedes_iff (node : RaftNode) (term : ℕ) (fault : Fault) :
    (node.becomeFollowerLocked term fault).Ensures
      (fun after _ => node.persistent.Precedes after.persistent ↔
        (fault = .none → node.persistent.CanEnter term))
      (fun _ => True) := by
  unfold becomeFollowerLocked enterTerm
  by_cases working : fault = .none
  · subst working
    simp only [persistState_none, Outcome.andThen_done, ↓reduceIte, Outcome.Ensures, forall_const]
    exact PersistentState.precedes_enterTerm_iff
  · refine (node.persistState_unpublished _ working).andThen fun after durable reached => ?_
    obtain ⟨rfl, same⟩ := reached
    simp only [Bool.false_eq_true, ↓reduceIte, Outcome.Ensures, same, working, false_implies, iff_true]
    exact .refl _

theorem applyConfigurationEntryLocked_precedes_iff (node : RaftNode) (entry : LogEntry)
    (stateFault leaveFault : Fault) :
    (node.applyConfigurationEntryLocked entry stateFault leaveFault).Ensures
      (fun after _ => node.persistent.Precedes after.persistent ↔
        ((∃ membership, nextMembership entry = .ok membership ∧ node.mustLeave membership) →
          stateFault = .none → leaveFault = .none → node.persistent.votedFor = ""))
      (fun _ => True) := by
  unfold applyConfigurationEntryLocked
  cases next : nextMembership entry with
  | error error =>
      simp only [Outcome.Ensures, reduceCtorEq, false_and, exists_false, false_implies, iff_true]
      exact .refl _
  | ok membership =>
      simp only [Except.ok.injEq, exists_eq_left']
      by_cases working : stateFault = .none
      · subst working
        simp only [persistState_none, Outcome.andThen_done, not_true_eq_false, ↓reduceIte, forall_const]
        split
        · rename_i leaves
          have leaving : node.mustLeave membership := leaves
          refine (becomeFollowerLocked_precedes_iff _ _ leaveFault).mono ?_ fun _ _ => trivial
          intro after _ reached
          simp only [leaving, forall_const]
          refine Iff.trans ?_ (reached.trans ?_)
          · rfl
          · exact forall_congr' fun _ => ⟨fun enter => enter.elim (fun less => absurd less (lt_irrefl _)) And.right,
              fun none => Or.inr ⟨rfl, none⟩⟩
        · rename_i stays
          have staying : ¬ node.mustLeave membership = true := stays
          exact ⟨fun _ leaves => absurd leaves staying,
            fun _ => PersistentState.precedes_of_ballot_eq rfl rfl⟩
      · refine (node.persistState_unpublished _ working).andThen fun after durable reached => ?_
        obtain ⟨rfl, same⟩ := reached
        simp only [Bool.false_eq_true, not_false_eq_true, ↓reduceIte, Outcome.Ensures, same, working,
          false_implies, implies_true, iff_true]
        exact .refl _

theorem pickCommitted_precedes_iff (node : RaftNode) (stateFault leaveFault : Fault) :
    (node.pickCommitted stateFault leaveFault).Ensures
      (fun after _ => node.persistent.Precedes after.persistent ↔
        (node.removesItself → stateFault = .none → leaveFault = .none →
          node.persistent.votedFor = ""))
      (fun _ => True) := by
  unfold pickCommitted
  split
  · rename_i finished
    have nothing : node.removesItself = false := by
      unfold removesItself
      simp only [Bool.and_eq_false_imp, decide_eq_true_eq]
      omega
    simp only [Outcome.Ensures, nothing, Bool.false_eq_true, false_implies, iff_true]
    exact .refl _
  · rename_i unfinished
    split
    · rename_i missing
      simp only [Outcome.Ensures, removesItself, missing, Bool.and_false, Bool.false_eq_true,
        false_implies, iff_true]
      exact .refl _
    · rename_i entry found
      have behind : node.lastApplied < node.commitIndex := by omega
      split
      · rename_i configuration
        have leaves : node.removesItself ↔
            ∃ membership, nextMembership entry = .ok membership ∧ node.mustLeave membership := by
          simp only [removesItself, found, behind, configuration, decide_true, Bool.true_and]
          cases nextMembership entry with
          | error error => simp
          | ok membership => simp
        rw [leaves]
        refine (node.applyConfigurationEntryLocked_precedes_iff entry stateFault leaveFault).andThen
          fun after applied reached => ?_
        cases applied with
        | false => exact reached
        | true => exact reached
      · rename_i command
        have nothing : node.removesItself = false := by
          simp [removesItself, found, command]
        simp only [Outcome.Ensures, nothing, Bool.false_eq_true, false_implies, iff_true]
        exact .refl _

theorem handleReadResult_precedes_iff (node : RaftNode) (read : PendingRead) (peerID : NodeID)
    (result : ProbeResult) (fault : Fault) :
    (node.handleReadResult read peerID result fault).Ensures
      (fun after _ => node.persistent.Precedes after.persistent ↔
        ∀ reply, result = .answered reply → read.term < reply.term → fault = .none →
          node.persistent.CanEnter reply.term)
      (fun _ => True) := by
  have still : node.persistent.Precedes node.persistent := .refl _
  unfold handleReadResult
  cases result with
  | failed =>
      simp only [Outcome.Ensures, still, reduceCtorEq, false_implies, implies_true]
  | answered reply =>
      dsimp only
      simp only [ProbeResult.answered.injEq, forall_eq']
      split
      · rename_i higher
        refine (node.becomeFollowerLocked_precedes_iff reply.term fault).andThen
          fun after durable reached => ?_
        exact reached.trans ⟨fun enter _ => enter, fun enter => enter higher⟩
      · rename_i notHigher
        have vacuous : read.term < reply.term → fault = .none → node.persistent.CanEnter reply.term :=
          fun higher => absurd higher notHigher
        split
        · exact ⟨fun _ => vacuous, fun _ => still⟩
        · split
          · exact ⟨fun _ => vacuous, fun _ => still⟩
          · exact ⟨fun _ => vacuous, fun _ => still⟩

theorem handleVoteReply_precedes (node : RaftNode) (electionTerm : ℕ) (reply : RequestVoteReply)
    (fault : Fault) :
    (node.handleVoteReply electionTerm reply fault).Ensures
      (fun after _ => node.persistent.Precedes after.persistent) (fun _ => True) := by
  unfold handleVoteReply
  split
  · rename_i ahead
    refine ((node.enterTerm_ensures fault ahead).mono (fun _ _ move => move.precedes)
      fun _ _ => trivial).andThen fun after durable precedes => ?_
    cases durable with
    | false => exact precedes
    | true => exact precedes
  · split
    · exact .refl _
    · exact .refl _

theorem becomeLeaderLocked_frame (node : RaftNode) :
    node.becomeLeaderLocked.id = node.id ∧ node.becomeLeaderLocked.persistent = node.persistent ∧
      node.becomeLeaderLocked.role = .leader ∧
      node.becomeLeaderLocked.votesReceived = node.votesReceived ∧
      node.becomeLeaderLocked.log = node.log ∧ node.becomeLeaderLocked.storage = node.storage ∧
      node.becomeLeaderLocked.commitIndex = node.commitIndex ∧
      node.becomeLeaderLocked.lastApplied = node.lastApplied ∧
      node.becomeLeaderLocked.peerIDs = node.peerIDs := by
  have frame : ∀ (peers : List NodeID) (start : RaftNode),
      let after := peers.foldl initializeReplicationStateLocked start
      after.id = start.id ∧ after.persistent = start.persistent ∧ after.role = start.role ∧
        after.votesReceived = start.votesReceived ∧ after.log = start.log ∧
        after.storage = start.storage ∧ after.commitIndex = start.commitIndex ∧
        after.lastApplied = start.lastApplied ∧ after.peerIDs = start.peerIDs := by
    intro peers
    induction peers with
    | nil => exact fun start => ⟨rfl, rfl, rfl, rfl, rfl, rfl, rfl, rfl, rfl⟩
    | cons peer rest ih => exact fun start => ih (start.initializeReplicationStateLocked peer)
  exact frame node.peerIDs { node with role := .leader, leaderID := node.id }

theorem tryBecomeLeader_persistent (node : RaftNode) :
    node.tryBecomeLeader.Ensures (fun after _ => after.persistent = node.persistent) (fun _ => True) := by
  unfold tryBecomeLeader
  split
  · rfl
  · split
    · rfl
    · exact node.becomeLeaderLocked_frame.2.1

end RaftNode

/-- The sections that do to a ballot what their handler does; the others count votes, apply entries or end
reads. -/
def Event.movesBallot : Event → Bool
  | .receiveVoteReply _ _ _ | .tryBecomeLeader | .pickCommitted _ _ | .receiveProbeResult _ _ _ _ => false
  | _ => true

namespace Process

variable {process after : Process} {observations : List Observation}

theorem effect_path (process : Process) {event : Event} (moves : event.movesBallot) :
    (process.effect event).Ensures (fun after _ => process.node.BallotPath after) process.node.BallotLost := by
  have single : ∀ {α : Type} {outcome : Outcome α},
      outcome.Ensures (fun after _ => process.node.BallotMove after) process.node.Spares →
        outcome.forget.Ensures (fun after _ => process.node.BallotPath after) process.node.BallotLost :=
    fun ensures => (ensures.mono (fun _ _ => .of_move) fun _ => RaftNode.Spares.lost).forget
  have kept : ∀ {α : Type} {outcome : Outcome α},
      outcome.Ensures (fun after _ => process.node.KeepsBallot after) process.node.Spares →
        outcome.forget.Ensures (fun after _ => process.node.BallotPath after) process.node.BallotLost :=
    fun ensures => single (ensures.mono (fun _ _ => .keep) fun _ spares => spares)
  cases event with
  | startElection fault => exact single (process.node.startElection_ensures fault)
  | receiveRequestVote args termFault voteFault =>
      exact ((process.node.requestVote_ensures args termFault voteFault).mono (fun _ _ voted => voted.1)
        fun _ lost => lost).forget
  | propose data fault => exact kept (process.node.propose_ensures data fault)
  | receiveAppendEntries args purpose termFault logFault =>
      exact (process.node.appendEntries_ensures args termFault logFault).forget
  | receiveAppendReply peerID args reply fault =>
      exact single (process.node.handleAppendEntriesReply_ensures peerID args reply fault)
  | markApplied =>
      simp only [effect]
      split
      · exact .of_move (.keep ⟨rfl, rfl, Or.inr ⟨rfl, rfl⟩, process.node.spares_storage⟩)
      · exact .refl
  | createSnapshot index data saveFault compactFault =>
      exact kept (process.node.createSnapshot_ensures index data saveFault compactFault)
  | receiveInstallSnapshot args termFault saveFault =>
      exact (process.node.installSnapshot_ensures args termFault saveFault).forget
  | finishInstall install fault => exact kept (process.node.finishInstall_ensures install fault)
  | receiveInstallReply peerID args reply fault =>
      exact single (process.node.handleInstallSnapshotReply_ensures peerID args reply fault)
  | receiveVoteReply args reply fault | tryBecomeLeader | pickCommitted stateFault leaveFault
  | receiveProbeResult read peerID result fault => cases moves
  | requestVotes | replicateTo peerID | sendApplied | sendInstallSnapshot peerID
  | restoreSnapshot install succeeds | beginRead read | probeRead read peerID | cancelRead read => exact .refl

/-- The two calls of `becomeFollowerLocked` that do not compare terms first: a read that
has seen a higher term than its own, and a leader that applies its own removal. -/
def EntersForward (process : Process) : Event → Prop
  | .receiveProbeResult read _ (.answered reply) fault =>
      ∀ pending ∈ process.reads read, pending.term < reply.term → fault = .none →
        process.node.persistent.CanEnter reply.term
  | .pickCommitted stateFault leaveFault =>
      process.node.removesItself → stateFault = .none → leaveFault = .none →
        process.node.persistent.votedFor = ""
  | _ => True

instance (process : Process) : DecidablePred process.EntersForward
  | .receiveProbeResult read _ (.answered reply) fault =>
      inferInstanceAs (Decidable (∀ pending ∈ process.reads read, pending.term < reply.term →
        fault = .none → process.node.persistent.CanEnter reply.term))
  | .pickCommitted stateFault leaveFault =>
      inferInstanceAs (Decidable (process.node.removesItself → stateFault = .none →
        leaveFault = .none → process.node.persistent.votedFor = ""))
  | .receiveProbeResult _ _ .failed _ | .startElection _ | .requestVotes | .receiveRequestVote _ _ _
  | .receiveVoteReply _ _ _ | .tryBecomeLeader | .propose _ _ | .replicateTo _
  | .receiveAppendEntries _ _ _ _ | .receiveAppendReply _ _ _ _ | .sendApplied | .markApplied
  | .createSnapshot _ _ _ _ | .sendInstallSnapshot _ | .receiveInstallSnapshot _ _ _
  | .restoreSnapshot _ _ | .finishInstall _ _ | .receiveInstallReply _ _ _ _ | .beginRead _
  | .probeRead _ _ | .cancelRead _ => .isTrue trivial

/-- A section that never goes back. -/
theorem ensures_forward {α : Type} {outcome : Outcome α} {crashed : WALStorage → Prop} {event : Event}
    (ensures : outcome.Ensures (fun after _ => process.node.persistent.Precedes after.persistent) crashed)
    (forward : process.EntersForward event) :
    outcome.forget.Ensures
      (fun after _ => process.node.persistent.Precedes after.persistent ↔ process.EntersForward event)
      (fun _ => True) :=
  (ensures.mono (fun _ _ precedes => iff_of_true precedes forward) fun _ _ => trivial).forget

theorem effect_precedes_iff (process : Process) (event : Event) :
    (process.effect event).Ensures
      (fun after _ => process.node.persistent.Precedes after.persistent ↔ process.EntersForward event)
      (fun _ => True) := by
  have still : process.node.persistent.Precedes process.node.persistent := .refl _
  cases event with
  | receiveVoteReply args reply fault =>
      exact ensures_forward (process.node.handleVoteReply_precedes args.term reply fault) trivial
  | tryBecomeLeader =>
      exact ensures_forward (process.node.tryBecomeLeader_persistent.mono (fun _ _ same => same ▸ still)
        fun _ lost => lost) trivial
  | pickCommitted stateFault leaveFault =>
      exact (process.node.pickCommitted_precedes_iff stateFault leaveFault).forget
  | receiveProbeResult read peerID result fault =>
      simp only [effect]
      cases found : process.reads read with
      | none =>
          refine iff_of_true still ?_
          cases result with
          | failed => trivial
          | answered reply => simp [EntersForward, found]
      | some pending =>
          refine ((process.node.handleReadResult_precedes_iff pending peerID result fault).mono
            (fun after _ reached => reached.trans ?_) fun _ lost => lost).forget
          cases result with
          | failed => simp [EntersForward]
          | answered reply => simp [EntersForward, found]
  | _ => exact (process.effect_path rfl).mono (fun _ _ path => iff_of_true path.precedes trivial) fun _ _ => trivial

/-- What one critical section does to the ballot: it goes back exactly when one of the
two unguarded calls does. -/
theorem step_precedes_iff {event : Event} (stepped : process.step event = some (.running after observations)) :
    process.node.persistent.Precedes after.node.persistent ↔ process.EntersForward event :=
  step_ensures stepped (process.effect_precedes_iff event)

/-- A stable configuration of the voters `B` and `C`. -/
def removalOfA : Bytes :=
  [0x52, 0x43, 0x46, 0x47, 1, 1, 0, 0, 0, 2, 0, 0, 0, 1, 66, 0, 0, 0, 1, 67]

/-- Along a run whose unguarded step downs all go forward, the term never decreases and a
vote is never changed within its term.  No other condition makes every step do so. -/
theorem term_and_vote_never_go_back (start : Process) :
    (∀ (after : Process) (event : Event), start.advance event = some after →
      ((start.node.persistent.currentTerm ≤ after.node.persistent.currentTerm ∧
          (after.node.persistent.currentTerm = start.node.persistent.currentTerm →
            start.node.persistent.votedFor ≠ "" →
              after.node.persistent.votedFor = start.node.persistent.votedFor)) ↔
        start.EntersForward event)) ∧
    ∀ final : Process, Reaches advance EntersForward start final →
      start.node.persistent.currentTerm ≤ final.node.persistent.currentTerm ∧
        (final.node.persistent.currentTerm = start.node.persistent.currentTerm →
          start.node.persistent.votedFor ≠ "" →
            final.node.persistent.votedFor = start.node.persistent.votedFor) := by
  constructor
  · intro after event advanced
    obtain ⟨observations, stepped⟩ := advance_running advanced
    rw [← PersistentState.precedes_iff]
    exact step_precedes_iff stepped
  · intro final reached
    rw [← PersistentState.precedes_iff]
    refine reached.invariant (fun process => start.node.persistent.Precedes process.node.persistent)
      (.refl _) ?_
    intro before event after precedes forward advanced
    obtain ⟨observations, stepped⟩ := advance_running advanced
    exact precedes.trans ((step_precedes_iff stepped).mpr forward)

/-- A read that finds a higher term while its leader still is in the old one. -/
theorem term_and_vote_forward_read :
    ∃ start final : Process, Cluster.trio.boot "A" (Cluster.trio.bootstrapped "A") = .ok start ∧
      final.node.persistent.currentTerm = 2 ∧
      start.node.persistent.currentTerm ≤ final.node.persistent.currentTerm := by
  have readsOn : ∃ start, Cluster.trio.boot "A" (Cluster.trio.bootstrapped "A") = .ok start ∧
      ∃ final, Reaches advance EntersForward start final ∧ final.node.persistent.currentTerm = 2 :=
    ⟨_, rfl, Reaches.of_leadsTo (fun process event => decide (process.EntersForward event))
      (fun _ _ => of_decide_eq_true)
      (leadAndCommit [[1]] ++ [.beginRead 0, .receiveProbeResult 0 "C" (.answered ⟨2, "C", false⟩) .none])
      (by decide +kernel)⟩
  obtain ⟨start, booted, final, reached, entered⟩ := readsOn
  exact ⟨start, final, booted, entered, ((term_and_vote_never_go_back start).2 final reached).1⟩

/-- A leader of term 1 reads; before it hears that a peer has reached term 2, it has voted
in term 3, and the step down takes it back to term 2 without a vote.  A leader that applies
its own removal stays in its term and forgets whom it voted for. -/
theorem step_down_goes_back : ∃ start, Cluster.trio.boot "A" (Cluster.trio.bootstrapped "A") = .ok start ∧
    (∃ middle final, Reaches advance (fun _ _ => True) start middle ∧
      Reaches advance (fun _ _ => True) middle final ∧
        final.node.persistent.currentTerm < middle.node.persistent.currentTerm) ∧
    ∃ middle final, Reaches advance (fun _ _ => True) start middle ∧
      Reaches advance (fun _ _ => True) middle final ∧
        final.node.persistent.currentTerm = middle.node.persistent.currentTerm ∧
        middle.node.persistent.votedFor = "A" ∧ final.node.persistent.votedFor = "" := by
  refine ⟨_, rfl, ?_, ?_⟩
  · exact Reaches.of_leadsTo_twice (fun _ _ => true) (fun _ _ _ => trivial)
      (leadAndCommit [[1]] ++ [.beginRead 0, .receiveRequestVote ⟨3, "B", 1, 1⟩ .none .none])
      [.receiveProbeResult 0 "C" (.answered ⟨2, "C", false⟩) .none] (by decide +kernel)
  · exact Reaches.of_leadsTo_twice (fun _ _ => true) (fun _ _ _ => trivial)
      (leadAndCommit [removalOfA]) [.pickCommitted .none .none] (by decide +kernel)

end Process

end Raftiq
