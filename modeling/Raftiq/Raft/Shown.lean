import Raftiq.Raft.Effect

namespace Raftiq

theorem RaftNode.finishInstall_reply {node after : RaftNode} {install : PendingInstall} {fault : Fault}
    {reply : InstallSnapshotReply} (finished : node.finishInstall install fault = .done after reply) :
    reply.term = install.replyTerm := by
  unfold finishInstall at finished
  dsimp only at finished
  split at finished
  · cases finished
  · cases finished
    rfl
  · split at finished
    · cases finished
      rfl
    · cases finished
      rfl

namespace Process

/-- The step takes a read this far: it begins it, or it handles the answer to a probe. -/
def Advances (process next : Process) (event : Event) (read : ℕ) (progress : ReadProgress) : Prop :=
  (event = .beginRead read ∧ next.node = process.node ∧ process.node.beginReadIndex = progress) ∨
    ∃ pending peerID result fault, event = .receiveProbeResult read peerID result fault ∧
      process.reads read = some pending ∧
      process.node.handleReadResult pending peerID result fault = .done next.node progress

/-- Where an observation of a section comes from. -/
def Shows (process next : Process) (event : Event) (observations : List Observation) : Observation → Prop
  | .sent (.requestVote target args) => event = .requestVotes ∧ target ∈ process.node.peerIDs ∧
      process.node.requestVotes = some args
  | .sent (.voteReply args reply) => ∃ termFault voteFault, event = .receiveRequestVote args termFault voteFault ∧
      process.node.requestVote args termFault voteFault = .done next.node reply
  | .sent (.appendEntries target args) => event = .replicateTo target ∧
      process.node.buildAppendEntries target = some args ∧ .builtFrom args process.node.log ∈ observations
  | .sent (.appendReply _ args reply) => ∃ termFault logFault,
      event = .receiveAppendEntries args .replication termFault logFault ∧
      process.node.appendEntries args termFault logFault = .done next.node reply
  | .sent (.probe read target args) => event = .probeRead read target ∧
      (∃ pending, process.reads read = some pending ∧ process.node.probeReadIndex pending target = some args) ∧
      .builtFrom args process.node.log ∈ observations
  | .sent (.probeReply read peerID reply) => peerID = next.node.id ∧ ∃ args termFault logFault,
      event = .receiveAppendEntries args (.probe read) termFault logFault ∧
      process.node.appendEntries args termFault logFault = .done next.node reply
  | .sent (.installSnapshot target args) => event = .sendInstallSnapshot target ∧
      process.node.buildInstallSnapshot target = some args
  | .sent (.installReply _ args reply) =>
      (∃ termFault saveFault, event = .receiveInstallSnapshot args termFault saveFault ∧
        process.node.installSnapshot args termFault saveFault = .done next.node (.replied reply)) ∨
      ∃ install ∈ process.installs, install.args = args ∧ reply.term = install.replyTerm
  | .builtFrom _ log => log = process.node.log
  | .elected term log => process.node.tryBecomeLeader = .done next.node true ∧
      term = next.node.persistent.currentTerm ∧ log = next.node.log
  | .committed term index log => process.node.commitIndex < next.node.commitIndex ∧
      term = next.node.persistent.currentTerm ∧ index = next.node.commitIndex ∧ log = next.node.log
  | .applied entry => ∃ index, process.applying = .picked index entry
  | .readBegan read => event = .beginRead read
  | .readReturned read result => process.Advances next event read (.returned result)
  | .proposed _ => True

variable {process next : Process} {event : Event} {observations shown : List Observation}

theorem shows_nil : ∀ observation ∈ ([] : List Observation), process.Shows next event shown observation :=
  fun _ none => absurd none List.not_mem_nil

theorem observeCommit_shows :
    ∀ observation ∈ observeCommit process.node next.node, process.Shows next event shown observation := by
  unfold observeCommit
  split
  · rename_i raised
    exact List.forall_mem_singleton.mpr ⟨raised, rfl, rfl, rfl⟩
  · exact shows_nil

theorem settleRead_shows {origin : Process} {read : ℕ} {progress : ReadProgress}
    (advances : process.Advances next event read progress) :
    ∀ observation ∈ (origin.settleRead read progress).2, process.Shows next event shown observation := by
  cases progress with
  | waiting pending => exact shows_nil
  | returned result => exact List.forall_mem_singleton.mpr advances

theorem sendAppend_shows {args : Option AppendEntriesArgs} {message : AppendEntriesArgs → Message}
    (sent : process.sendAppend args message = .running next observations)
    (sends : ∀ built, args = some built → .builtFrom built process.node.log ∈ observations →
      process.Shows next event observations (.sent (message built))) :
    ∀ observation ∈ observations, process.Shows next event observations observation := by
  cases args with
  | none =>
      cases sent
      exact shows_nil
  | some built =>
      have shows := sends built rfl
      cases sent
      exact List.forall_mem_cons.mpr ⟨shows (by simp), List.forall_mem_singleton.mpr rfl⟩

/-- Every observation of a step is accounted for. -/
theorem step_shows (stepped : process.step event = some (.running next observations)) :
    ∀ observation ∈ observations, process.Shows next event observations observation := by
  cases event with
  | startElection fault | receiveVoteReply args reply fault | createSnapshot index data saveFault compactFault =>
      obtain ⟨_, _, _, rfl⟩ := settle_running (Option.some.inj stepped)
      exact shows_nil
  | requestVotes =>
      cases Option.some.inj stepped
      intro observation member
      split at member
      · cases member
      · rename_i args asked
        obtain ⟨peerID, listed, rfl⟩ := List.mem_map.mp member
        exact ⟨rfl, listed, asked⟩
  | receiveRequestVote args termFault voteFault =>
      obtain ⟨reply, handled, _, rfl⟩ := settle_running (Option.some.inj stepped)
      exact List.forall_mem_singleton.mpr ⟨termFault, voteFault, rfl, handled⟩
  | tryBecomeLeader =>
      obtain ⟨won, elected, _, rfl⟩ := settle_running (Option.some.inj stepped)
      cases won with
      | false => exact shows_nil
      | true => exact List.forall_mem_singleton.mpr ⟨elected, rfl, rfl⟩
  | propose data fault =>
      obtain ⟨result, _, _, rfl⟩ := settle_running (Option.some.inj stepped)
      cases result with
      | error error => exact shows_nil
      | ok index =>
          intro observation member
          rcases List.mem_append.mp member with proposed | committed
          · obtain ⟨entry, _, rfl⟩ := Option.map_eq_some_iff.mp (Option.mem_toList.mp proposed)
            trivial
          · exact observeCommit_shows observation committed
  | replicateTo peerID =>
      exact sendAppend_shows (Option.some.inj stepped) fun args built noted => ⟨rfl, built, noted⟩
  | receiveAppendEntries args purpose termFault logFault =>
      obtain ⟨reply, handled, _, rfl⟩ := settle_running (Option.some.inj stepped)
      cases purpose with
      | replication => exact List.forall_mem_singleton.mpr ⟨termFault, logFault, rfl, handled⟩
      | probe read => exact List.forall_mem_singleton.mpr ⟨rfl, args, termFault, logFault, rfl, handled⟩
  | receiveAppendReply peerID args reply fault | receiveInstallReply peerID args reply fault =>
      obtain ⟨_, _, _, rfl⟩ := settle_running (Option.some.inj stepped)
      exact observeCommit_shows
  | pickCommitted stateFault leaveFault =>
      simp only [step] at stepped
      split at stepped
      · unfold settleApply at stepped
        split at stepped
        · cases stepped
          exact shows_nil
        · cases stepped
      · cases stepped
  | sendApplied =>
      simp only [step] at stepped
      split at stepped
      · rename_i index entry picked
        cases stepped
        exact List.forall_mem_singleton.mpr ⟨index, picked⟩
      · cases stepped
  | markApplied =>
      simp only [step] at stepped
      split at stepped
      · cases stepped
        exact shows_nil
      · cases stepped
  | sendInstallSnapshot peerID =>
      cases Option.some.inj stepped
      split
      · exact shows_nil
      · rename_i args built
        exact List.forall_mem_singleton.mpr ⟨rfl, built⟩
  | receiveInstallSnapshot args termFault saveFault =>
      simp only [step, settleInstall, Option.some.injEq] at stepped
      split at stepped
      · rename_i handled
        cases stepped
        exact List.forall_mem_singleton.mpr (Or.inl ⟨termFault, saveFault, rfl, handled⟩)
      · cases stepped
        exact shows_nil
      · cases stepped
  | restoreSnapshot install succeeds =>
      simp only [step] at stepped
      split at stepped
      · rename_i waits
        split at stepped
        · cases stepped
          exact shows_nil
        · cases stepped
          exact List.forall_mem_singleton.mpr (Or.inr ⟨install, waits.1, rfl, rfl⟩)
      · cases stepped
  | finishInstall install fault =>
      simp only [step] at stepped
      split at stepped
      · rename_i waits
        obtain ⟨reply, finished, _, rfl⟩ := settle_running (Option.some.inj stepped)
        exact List.forall_mem_singleton.mpr
          (Or.inr ⟨install, waits.1, rfl, RaftNode.finishInstall_reply finished⟩)
      · cases stepped
  | beginRead read =>
      simp only [step] at stepped
      split at stepped
      · cases stepped
      · cases stepped
        exact List.forall_mem_cons.mpr ⟨rfl, settleRead_shows (Or.inl ⟨rfl, settleRead_node read _, rfl⟩)⟩
  | probeRead read peerID =>
      simp only [step] at stepped
      split at stepped
      · cases stepped
      · rename_i pending waits
        split at stepped
        · exact sendAppend_shows (Option.some.inj stepped)
            fun args built noted => ⟨rfl, ⟨pending, waits, built⟩, noted⟩
        · cases stepped
  | receiveProbeResult read peerID result fault =>
      simp only [step] at stepped
      split at stepped
      · cases stepped
      · rename_i pending waits
        split at stepped
        · obtain ⟨progress, handled, settled⟩ := settleReadOutcome_running (Option.some.inj stepped)
          have advances : process.Advances next (.receiveProbeResult read peerID result fault) read progress :=
            Or.inr ⟨pending, peerID, result, fault, rfl, waits, handled⟩
          have seen : observations = ((process.withNode next.node).settleRead read progress).2 :=
            congrArg Prod.snd settled
          intro observation member
          exact settleRead_shows advances observation (seen ▸ member)
        · cases stepped
  | cancelRead read =>
      simp only [step] at stepped
      split at stepped
      · cases stepped
      · cases stepped
        exact shows_nil

end Process

end Raftiq
