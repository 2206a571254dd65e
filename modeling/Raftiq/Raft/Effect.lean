import Raftiq.Raft.Process

namespace Raftiq

namespace Outcome

/-- What a section leaves behind, without its answer. -/
def forget {α : Type} : Outcome α → Outcome Unit
  | .done node _ => .done node ()
  | .crashed wal => .crashed wal

theorem Ensures.forget {α : Type} {outcome : Outcome α} {done : RaftNode → Prop}
    {crashed : WALStorage → Prop} (ensures : outcome.Ensures (fun node _ => done node) crashed) :
    outcome.forget.Ensures (fun node _ => done node) crashed := by
  cases outcome with
  | done node result => exact ensures
  | crashed wal => exact ensures

end Outcome

def Result.outcome : Result → Outcome Unit
  | .running process _ => .done process.node ()
  | .crashed wal => .crashed wal

namespace Process

/-- What an event does to the node. -/
def effect (process : Process) : Event → Outcome Unit
  | .startElection fault => (process.node.startElection fault).forget
  | .receiveRequestVote args termFault voteFault =>
      (process.node.requestVote args termFault voteFault).forget
  | .receiveVoteReply args reply fault => (process.node.handleVoteReply args.term reply fault).forget
  | .tryBecomeLeader => process.node.tryBecomeLeader.forget
  | .propose data fault => (process.node.propose data fault).forget
  | .receiveAppendEntries args _ termFault logFault =>
      (process.node.appendEntries args termFault logFault).forget
  | .receiveAppendReply peerID args reply fault =>
      (process.node.handleAppendEntriesReply peerID args reply fault).forget
  | .pickCommitted stateFault leaveFault => (process.node.pickCommitted stateFault leaveFault).forget
  | .markApplied =>
      match process.applying with
      | .sent index => .done (process.node.markApplied index) ()
      | _ => .done process.node ()
  | .createSnapshot index data saveFault compactFault =>
      (process.node.createSnapshot index data saveFault compactFault).forget
  | .receiveInstallSnapshot args termFault saveFault =>
      (process.node.installSnapshot args termFault saveFault).forget
  | .finishInstall install fault => (process.node.finishInstall install fault).forget
  | .receiveInstallReply peerID args reply fault =>
      (process.node.handleInstallSnapshotReply peerID args reply fault).forget
  | .receiveProbeResult read peerID result fault =>
      match process.reads read with
      | some pending => (process.node.handleReadResult pending peerID result fault).forget
      | none => .done process.node ()
  | .requestVotes | .replicateTo _ | .sendApplied | .sendInstallSnapshot _ | .restoreSnapshot _ _
  | .beginRead _ | .probeRead _ _ | .cancelRead _ => .done process.node ()

variable {process next : Process} {event : Event} {observations : List Observation} {result : Result}

theorem settle_outcome {α : Type} (outcome : Outcome α) (observe : RaftNode → α → List Observation) :
    (process.settle outcome observe).outcome = outcome.forget := by
  cases outcome with
  | done node result => rfl
  | crashed wal => rfl

theorem settleApply_outcome (outcome : Outcome ApplyStage) :
    (process.settleApply outcome).outcome = outcome.forget := by
  cases outcome with
  | done node result => rfl
  | crashed wal => rfl

theorem settleInstall_outcome (args : InstallSnapshotArgs) (outcome : Outcome RaftNode.InstallResult) :
    (process.settleInstall args outcome).outcome = outcome.forget := by
  cases outcome with
  | done node result =>
      cases result with
      | replied reply => rfl
      | pending install => rfl
  | crashed wal => rfl

theorem settleRead_node (read : ℕ) (progress : ReadProgress) :
    (process.settleRead read progress).1.node = process.node := by
  cases progress with
  | waiting pending => rfl
  | returned result => rfl

theorem settleReadOutcome_outcome (read : ℕ) (outcome : Outcome ReadProgress) :
    (process.settleReadOutcome read outcome).outcome = outcome.forget := by
  cases outcome with
  | done node progress => exact congrArg (Outcome.done · ()) (settleRead_node read progress)
  | crashed wal => rfl

theorem settle_running {α : Type} {outcome : Outcome α} {observe : RaftNode → α → List Observation}
    (settled : process.settle outcome observe = .running next observations) :
    ∃ result, outcome = .done next.node result ∧ next = process.withNode next.node ∧
      observations = observe next.node result := by
  cases outcome with
  | crashed wal => simp [settle] at settled
  | done node result =>
      cases settled
      exact ⟨result, rfl, rfl, rfl⟩

theorem settleReadOutcome_running {read : ℕ} {outcome : Outcome ReadProgress}
    (settled : process.settleReadOutcome read outcome = .running next observations) :
    ∃ progress, outcome = .done next.node progress ∧
      (next, observations) = (process.withNode next.node).settleRead read progress := by
  cases outcome with
  | crashed wal => simp [settleReadOutcome] at settled
  | done node progress =>
      cases progress with
      | waiting pending =>
          cases settled
          exact ⟨.waiting pending, rfl, rfl⟩
      | returned result =>
          cases settled
          exact ⟨.returned result, rfl, rfl⟩

theorem settle_calls {α : Type} {outcome : Outcome α} {observe : RaftNode → α → List Observation}
    (settled : process.settle outcome observe = .running next observations) :
    next.installs = process.installs ∧ next.applying = process.applying ∧ next.reads = process.reads := by
  cases outcome with
  | done node result =>
      cases settled
      exact ⟨rfl, rfl, rfl⟩
  | crashed wal => cases settled

theorem settleApply_calls {outcome : Outcome ApplyStage}
    (settled : process.settleApply outcome = .running next observations) :
    next.installs = process.installs ∧ next.reads = process.reads := by
  cases outcome with
  | done node stage =>
      cases settled
      exact ⟨rfl, rfl⟩
  | crashed wal => cases settled

theorem settleInstall_calls {args : InstallSnapshotArgs} {outcome : Outcome RaftNode.InstallResult}
    (settled : process.settleInstall args outcome = .running next observations) :
    next.applying = process.applying ∧ next.reads = process.reads := by
  cases outcome with
  | crashed wal => cases settled
  | done node result =>
      cases result with
      | replied reply | pending install =>
          cases settled
          exact ⟨rfl, rfl⟩

theorem settleRead_calls (read : ℕ) (progress : ReadProgress) :
    (process.settleRead read progress).1.installs = process.installs ∧
      (process.settleRead read progress).1.applying = process.applying := by
  cases progress with
  | waiting pending | returned result => exact ⟨rfl, rfl⟩

theorem settleReadOutcome_calls {read : ℕ} {outcome : Outcome ReadProgress}
    (settled : process.settleReadOutcome read outcome = .running next observations) :
    next.installs = process.installs ∧ next.applying = process.applying := by
  cases outcome with
  | done node progress =>
      cases settled
      exact settleRead_calls read progress
  | crashed wal => cases settled

theorem step_effect (stepped : process.step event = some result) :
    process.effect event = result.outcome := by
  cases event with
  | startElection fault | receiveRequestVote args termFault voteFault | receiveVoteReply args reply fault
  | tryBecomeLeader | propose data fault | receiveAppendEntries args purpose termFault logFault
  | receiveAppendReply peerID args reply fault | createSnapshot index data saveFault compactFault
  | receiveInstallReply peerID args reply fault =>
      cases stepped
      exact (settle_outcome _ _).symm
  | requestVotes | replicateTo peerID | sendInstallSnapshot peerID =>
      cases stepped
      rfl
  | receiveInstallSnapshot args termFault saveFault =>
      cases stepped
      exact (settleInstall_outcome _ _).symm
  | pickCommitted stateFault leaveFault =>
      simp only [step] at stepped
      split at stepped
      · cases stepped
        exact (settleApply_outcome _).symm
      · cases stepped
  | sendApplied =>
      simp only [step] at stepped
      split at stepped
      · cases stepped
        rfl
      · cases stepped
  | markApplied =>
      simp only [step] at stepped
      split at stepped
      · rename_i index sent
        cases stepped
        simp only [effect, sent]
        rfl
      · cases stepped
  | restoreSnapshot install succeeds =>
      simp only [step] at stepped
      split at stepped
      · split at stepped
        · cases stepped
          rfl
        · cases stepped
          rfl
      · cases stepped
  | finishInstall install fault =>
      simp only [step] at stepped
      split at stepped
      · cases stepped
        exact (settle_outcome _ _).symm
      · cases stepped
  | beginRead read =>
      simp only [step] at stepped
      split at stepped
      · cases stepped
      · cases stepped
        exact congrArg (Outcome.done · ()) (settleRead_node _ _).symm
  | probeRead read peerID =>
      simp only [step] at stepped
      split at stepped
      · cases stepped
      · split at stepped
        · cases stepped
          rfl
        · cases stepped
  | receiveProbeResult read peerID result fault =>
      simp only [step] at stepped
      split at stepped
      · cases stepped
      · rename_i pending found
        split at stepped
        · cases stepped
          simp only [effect, found]
          exact (settleReadOutcome_outcome _ _).symm
        · cases stepped
  | cancelRead read =>
      simp only [step] at stepped
      split at stepped
      · cases stepped
      · cases stepped
        rfl

/-- The `InstallSnapshot` calls in progress change in three sections only, and so do the stage of
`applyCommitted` and the reads that wait. -/
theorem step_calls (stepped : process.step event = some (.running next observations)) :
    (next.installs = process.installs ∨ (∃ args termFault saveFault,
      event = .receiveInstallSnapshot args termFault saveFault) ∨
      (∃ install succeeds, event = .restoreSnapshot install succeeds) ∨
      ∃ install fault, event = .finishInstall install fault) ∧
    (next.applying = process.applying ∨ (∃ stateFault leaveFault, event = .pickCommitted stateFault leaveFault) ∨
      event = .sendApplied ∨ event = .markApplied) ∧
    (next.reads = process.reads ∨ (∃ read, event = .beginRead read) ∨
      (∃ read peerID result fault, event = .receiveProbeResult read peerID result fault) ∨
      ∃ read, event = .cancelRead read) := by
  cases event with
  | startElection fault | receiveRequestVote args termFault voteFault | receiveVoteReply args reply fault
  | tryBecomeLeader | propose data fault | receiveAppendEntries args purpose termFault logFault
  | receiveAppendReply peerID args reply fault | createSnapshot index data saveFault compactFault
  | receiveInstallReply peerID args reply fault =>
      obtain ⟨installs, applying, reads⟩ := settle_calls (Option.some.inj stepped)
      exact ⟨Or.inl installs, Or.inl applying, Or.inl reads⟩
  | receiveInstallSnapshot args termFault saveFault =>
      obtain ⟨applying, reads⟩ := settleInstall_calls (Option.some.inj stepped)
      exact ⟨Or.inr (Or.inl ⟨args, termFault, saveFault, rfl⟩), Or.inl applying, Or.inl reads⟩
  | restoreSnapshot install succeeds =>
      refine ⟨Or.inr (Or.inr (Or.inl ⟨install, succeeds, rfl⟩)), ?_⟩
      simp only [step] at stepped
      split at stepped
      · split at stepped
        · cases stepped
          exact ⟨Or.inl rfl, Or.inl rfl⟩
        · cases stepped
          exact ⟨Or.inl rfl, Or.inl rfl⟩
      · cases stepped
  | finishInstall install fault =>
      refine ⟨Or.inr (Or.inr (Or.inr ⟨install, fault, rfl⟩)), ?_⟩
      simp only [step] at stepped
      split at stepped
      · exact (settle_calls (Option.some.inj stepped)).2.imp Or.inl Or.inl
      · cases stepped
  | requestVotes | replicateTo peerID | sendInstallSnapshot peerID =>
      cases stepped
      exact ⟨Or.inl rfl, Or.inl rfl, Or.inl rfl⟩
  | pickCommitted stateFault leaveFault =>
      simp only [step] at stepped
      split at stepped
      · obtain ⟨installs, reads⟩ := settleApply_calls (Option.some.inj stepped)
        exact ⟨Or.inl installs, Or.inr (Or.inl ⟨_, _, rfl⟩), Or.inl reads⟩
      · cases stepped
  | sendApplied =>
      simp only [step] at stepped
      split at stepped
      · cases stepped
        exact ⟨Or.inl rfl, Or.inr (Or.inr (Or.inl rfl)), Or.inl rfl⟩
      · cases stepped
  | markApplied =>
      simp only [step] at stepped
      split at stepped
      · cases stepped
        exact ⟨Or.inl rfl, Or.inr (Or.inr (Or.inr rfl)), Or.inl rfl⟩
      · cases stepped
  | beginRead read =>
      simp only [step] at stepped
      split at stepped
      · cases stepped
      · cases stepped
        obtain ⟨installs, applying⟩ := process.settleRead_calls read process.node.beginReadIndex
        exact ⟨Or.inl installs, Or.inl applying, Or.inr (Or.inl ⟨read, rfl⟩)⟩
  | probeRead read peerID =>
      simp only [step] at stepped
      split at stepped
      · cases stepped
      · split at stepped
        · cases stepped
          exact ⟨Or.inl rfl, Or.inl rfl, Or.inl rfl⟩
        · cases stepped
  | receiveProbeResult read peerID result fault =>
      simp only [step] at stepped
      split at stepped
      · cases stepped
      · split at stepped
        · obtain ⟨installs, applying⟩ := settleReadOutcome_calls (Option.some.inj stepped)
          exact ⟨Or.inl installs, Or.inl applying, Or.inr (Or.inr (Or.inl ⟨read, peerID, result, fault, rfl⟩))⟩
        · cases stepped
  | cancelRead read =>
      simp only [step] at stepped
      split at stepped
      · cases stepped
      · cases stepped
        exact ⟨Or.inl rfl, Or.inl rfl, Or.inr (Or.inr (Or.inr ⟨read, rfl⟩))⟩

theorem step_ensures {done : RaftNode → Prop} {crashed : WALStorage → Prop}
    (stepped : process.step event = some (.running next observations))
    (ensures : (process.effect event).Ensures (fun node _ => done node) crashed) : done next.node := by
  rw [step_effect stepped] at ensures
  exact ensures

theorem step_crash_ensures {done : RaftNode → Prop} {crashed : WALStorage → Prop} {wal : WALStorage}
    (stepped : process.step event = some (.crashed wal))
    (ensures : (process.effect event).Ensures (fun node _ => done node) crashed) : crashed wal := by
  rw [step_effect stepped] at ensures
  exact ensures

end Process

end Raftiq
