import Raftiq.Raft.Applied

namespace Raftiq

/-- The index that `applyCommitted` works on. -/
def ApplyStage.index : ApplyStage → Option ℕ
  | .idle => none
  | .picked index _ | .sent index => some index

/-- The entry that `applyCommitted` is about to send. -/
def ApplyStage.entry : ApplyStage → Option LogEntry
  | .picked _ entry => some entry
  | .idle | .sent _ => none

namespace RaftNode

/-- The entry that `applyCommitted` takes next. -/
def nextCommitted (node : RaftNode) : Option LogEntry :=
  if node.lastApplied < node.commitIndex then node.log.get (node.lastApplied + 1) else none

theorem nextCommitted_index {node : RaftNode} {entry : LogEntry} (next : node.nextCommitted = some entry) :
    node.log.get (node.lastApplied + 1) = some entry ∧ entry.index = node.lastApplied + 1 := by
  unfold nextCommitted at next
  split at next
  · exact ⟨next, (Log.mem_of_get next).1⟩
  · cases next

theorem nextConfiguration_committed {node : RaftNode} {entry : LogEntry} {membership : Membership}
    (next : node.nextConfiguration = some (entry, membership)) : node.nextCommitted = some entry := by
  obtain ⟨behind, found, _⟩ := nextConfiguration_some next
  rw [nextCommitted, if_pos behind, found]

/-- Only an entry that is committed is handed over. -/
theorem pickCommitted_hands {node after : RaftNode} {stateFault leaveFault : Fault} {index : ℕ}
    {entry : LogEntry} (picked : node.pickCommitted stateFault leaveFault = .done after (.picked index entry)) :
    node.nextCommitted = some entry := by
  unfold pickCommitted at picked
  split at picked
  · cases picked
  · rename_i behind
    split at picked
    · cases picked
    · rename_i next found
      split at picked
      · cases applied : node.applyConfigurationEntryLocked next stateFault leaveFault with
        | crashed wal =>
            rw [applied] at picked
            cases picked
        | done middle counts =>
            rw [applied] at picked
            simp only [Outcome.andThen_done] at picked
            split at picked
            · cases picked
            · cases picked
      · cases picked
        rw [nextCommitted, if_pos (not_le.mp behind), found]

/-- A round of `applyCommitted` hands over a command, or counts a configuration entry, or does neither. -/
theorem pickCommitted_cases {node after : RaftNode} {stateFault leaveFault : Fault} {stage : ApplyStage}
    (picked : node.pickCommitted stateFault leaveFault = .done after stage) :
    (∃ entry, node.nextCommitted = some entry ∧ ¬ isConfigurationEntry entry.data ∧ after = node ∧
        stage = .picked (node.lastApplied + 1) entry) ∨
      stage = .idle ∧ (after.lastApplied = node.lastApplied ∨
        ∃ entry, node.nextCommitted = some entry ∧ isConfigurationEntry entry.data ∧
          after.lastApplied = node.lastApplied + 1) := by
  have picks := node.pickCommitted_picks stateFault leaveFault
  rw [picked] at picks
  cases picks with
  | command found command same => exact Or.inl ⟨_, pickCommitted_hands picked, command, same, rfl⟩
  | stopped frame => exact Or.inr ⟨rfl, Or.inl frame.applied⟩
  | configured next published log applied =>
      have configuration := (nextConfiguration_some next).2.2.1
      exact Or.inr ⟨rfl, applied.imp_right fun counted =>
        ⟨_, nextConfiguration_committed next, configuration, counted⟩⟩

theorem markApplied_lastApplied (node : RaftNode) (index : ℕ) :
    (node.markApplied index).lastApplied = max node.lastApplied index := by
  simp only [markApplied]
  split
  · omega
  · omega

/-- A snapshot that is installed counts as applied. -/
theorem finishInstall_raises (node : RaftNode) (install : PendingInstall) (fault : Fault) :
    (node.finishInstall install fault).Ensures
      (fun after reply => after.persistent.membership = node.persistent.membership ∧
        after.lastApplied =
          if reply.success then max node.lastApplied install.args.lastIncludedIndex else node.lastApplied)
      fun _ => True := by
  unfold finishInstall
  dsimp only
  split
  · trivial
  · exact ⟨rfl, rfl⟩
  · split
    · exact ⟨rfl, rfl⟩
    · exact ⟨rfl, rfl⟩

/-- The first section of `InstallSnapshot` ends before the restore. -/
def InstallResult.Unrestored : InstallResult → Prop
  | .replied _ => True
  | .pending install => install.restored = false

theorem persistInstall_unrestored (node : RaftNode) (args : InstallSnapshotArgs) (fault : Fault) :
    (node.persistInstall args fault).Ensures (fun _ result => result.Unrestored) fun _ => True := by
  unfold persistInstall
  dsimp only
  split
  · trivial
  · split
    · trivial
    · split
      · trivial
      · trivial
      · rfl

theorem installSnapshot_unrestored (node : RaftNode) (args : InstallSnapshotArgs) (termFault saveFault : Fault) :
    (node.installSnapshot args termFault saveFault).Ensures (fun _ result => result.Unrestored) fun _ => True := by
  unfold installSnapshot
  split
  · trivial
  · split
    · refine Outcome.Ensures.andThen (node.enterTerm_applies termFault args.term) fun middle durable _ => ?_
      split
      · exact middle.persistInstall_unrestored args saveFault
      · trivial
    · exact node.persistInstall_unrestored args saveFault

end RaftNode

namespace Event

/-- Sections that can raise the applied index. -/
def raisesApplied : Event → Bool
  | .pickCommitted _ _ | .markApplied | .finishInstall _ _ => true
  | _ => false

end Event

namespace Process

/-- The other sections leave the applied index and the membership as they are. -/
theorem effect_unapplied (process : Process) {event : Event} (quiet : event.raisesApplied = false) :
    (process.effect event).Ensures
      (fun after _ => after.lastApplied = process.node.lastApplied ∧
        after.persistent.membership = process.node.persistent.membership) fun _ => True := by
  have framed : ∀ {α : Type} {outcome : Outcome α}, outcome.Frames process.node →
      outcome.forget.Ensures (fun after _ => after.lastApplied = process.node.lastApplied ∧
        after.persistent.membership = process.node.persistent.membership) fun _ => True :=
    fun frames => (frames.mono (fun _ _ frame => ⟨frame.applied, frame.membership⟩) fun _ _ => trivial).forget
  cases event with
  | pickCommitted stateFault leaveFault | markApplied | finishInstall install fault => cases quiet
  | startElection fault => exact framed (process.node.startElection_applies fault)
  | receiveRequestVote args termFault voteFault =>
      exact framed (process.node.requestVote_applies termFault voteFault args)
  | receiveVoteReply args reply fault => exact framed (process.node.handleVoteReply_applies fault args.term reply)
  | tryBecomeLeader => exact framed process.node.tryBecomeLeader_applies
  | propose data fault =>
      exact ((process.node.propose_applies fault data).mono (fun _ _ proposed => ⟨proposed.1, proposed.2.1⟩)
        fun _ _ => trivial).forget
  | receiveAppendEntries args purpose termFault logFault =>
      exact ((process.node.appendEntries_applies termFault logFault args).mono
        (fun _ _ kept => ⟨kept.1, kept.2.1⟩) fun _ _ => trivial).forget
  | receiveAppendReply peerID args reply fault =>
      exact framed (process.node.handleAppendEntriesReply_applies fault peerID args reply)
  | createSnapshot index data saveFault compactFault =>
      exact ((process.node.createSnapshot_applies saveFault compactFault index data).mono
        (fun _ _ kept => ⟨kept.1, kept.2.1⟩) fun _ _ => trivial).forget
  | receiveInstallSnapshot args termFault saveFault =>
      exact framed (process.node.installSnapshot_applies termFault saveFault args)
  | receiveInstallReply peerID args reply fault =>
      exact framed (process.node.handleInstallSnapshotReply_applies fault peerID args reply)
  | receiveProbeResult read peerID result fault =>
      simp only [effect]
      split
      · exact framed (process.node.handleReadResult_applies fault _ peerID result)
      · exact ⟨rfl, rfl⟩
  | requestVotes | replicateTo peerID | sendApplied | sendInstallSnapshot peerID
  | restoreSnapshot install succeeds | beginRead read | probeRead read peerID | cancelRead read =>
      exact ⟨rfl, rfl⟩

/-- What a section does to the applied index, the membership and the stage of `applyCommitted`. -/
inductive AppliesBy (process next : Process) : Event → Prop where
  | quiet {event : Event} (silent : event.raisesApplied = false)
      (applied : next.node.lastApplied = process.node.lastApplied)
      (membership : next.node.persistent.membership = process.node.persistent.membership)
      (applying : next.applying = process.applying) : AppliesBy process next event
  | pick {stateFault leaveFault : Fault} (idle : process.applying = .idle)
      (picked : process.node.pickCommitted stateFault leaveFault = .done next.node next.applying) :
      AppliesBy process next (.pickCommitted stateFault leaveFault)
  | send {index : ℕ} {entry : LogEntry} (picked : process.applying = .picked index entry)
      (same : next = { process with applying := .sent index }) : AppliesBy process next .sendApplied
  | mark {index : ℕ} (sent : process.applying = .sent index)
      (same : next = { process with node := process.node.markApplied index, applying := .idle }) :
      AppliesBy process next .markApplied
  | install {install : PendingInstall} {fault : Fault} {reply : InstallSnapshotReply}
      (finished : process.node.finishInstall install fault = .done next.node reply)
      (applying : next.applying = process.applying) : AppliesBy process next (.finishInstall install fault)

theorem step_appliesBy {process next : Process} {event : Event} {observations : List Observation}
    (stepped : process.step event = some (.running next observations)) : process.AppliesBy next event := by
  cases event with
  | pickCommitted stateFault leaveFault =>
      simp only [step] at stepped
      split at stepped
      · rename_i idle
        cases outcome : process.node.pickCommitted stateFault leaveFault with
        | crashed wal => simp [outcome, settleApply] at stepped
        | done node stage =>
            rw [outcome] at stepped
            cases stepped
            exact .pick idle outcome
      · cases stepped
  | sendApplied =>
      simp only [step] at stepped
      split at stepped
      · rename_i picked
        cases stepped
        exact .send picked rfl
      · cases stepped
  | markApplied =>
      simp only [step] at stepped
      split at stepped
      · rename_i sent
        cases stepped
        exact .mark sent rfl
      · cases stepped
  | finishInstall install fault =>
      simp only [step] at stepped
      split at stepped
      · cases outcome : process.node.finishInstall install fault with
        | crashed wal => simp [outcome, settle] at stepped
        | done node reply =>
            rw [outcome] at stepped
            cases stepped
            exact .install outcome rfl
      · cases stepped
  | _ =>
      obtain ⟨applied, membership⟩ := step_ensures stepped (process.effect_unapplied rfl)
      refine .quiet rfl applied membership ?_
      rcases (step_calls stepped).2.1 with same | ⟨_, _, event⟩ | event | event
      · exact same
      · cases event
      · cases event
      · cases event

theorem step_sendApplied {process next : Process} {observations : List Observation} {index : ℕ} {entry : LogEntry}
    (picked : process.applying = .picked index entry)
    (stepped : process.step .sendApplied = some (.running next observations)) :
    next = { process with applying := .sent index } := by
  simp only [step, picked] at stepped
  cases stepped
  rfl

/-- The `InstallSnapshot` calls in progress whose snapshot has been restored. -/
def RestoredInstall (process : Process) (install : PendingInstall) : Prop :=
  install ∈ process.installs ∧ install.restored = true

theorem settleInstall_restored {process next : Process} {args : InstallSnapshotArgs}
    {observations : List Observation} {outcome : Outcome RaftNode.InstallResult} {install : PendingInstall}
    (unrestored : outcome.Ensures (fun _ result => result.Unrestored) fun _ => True)
    (settled : process.settleInstall args outcome = .running next observations) :
    next.RestoredInstall install ↔ process.RestoredInstall install := by
  cases outcome with
  | crashed wal => cases settled
  | done node result =>
      cases result with
      | replied reply =>
          cases settled
          rfl
      | pending pending =>
          cases settled
          simp only [RestoredInstall, List.mem_cons]
          constructor
          · rintro ⟨rfl | member, restored⟩
            · cases unrestored.symm.trans restored
            · exact ⟨member, restored⟩
          · rintro ⟨member, restored⟩
            exact ⟨Or.inr member, restored⟩

variable {process next : Process} {event : Event} {observations : List Observation} {install : PendingInstall}

/-- A restored snapshot was so before, or this section is its restore. -/
theorem step_restored (stepped : process.step event = some (.running next observations))
    (restored : next.RestoredInstall install) :
    process.RestoredInstall install ∨
      ∃ pending, event = .restoreSnapshot pending true ∧ install = { pending with restored := true } := by
  rcases (step_calls stepped).1 with same | ⟨args, termFault, saveFault, rfl⟩ | ⟨other, succeeds, rfl⟩ |
    ⟨other, fault, rfl⟩
  · rw [RestoredInstall, same] at restored
    exact Or.inl restored
  · exact Or.inl ((settleInstall_restored (RaftNode.installSnapshot_unrestored _ _ _ _)
      (Option.some.inj stepped)).mp restored)
  · simp only [step] at stepped
    split at stepped
    · split at stepped
      · rename_i succeeds
        cases stepped
        rcases List.mem_cons.mp restored.1 with same | member
        · exact Or.inr ⟨other, by rw [succeeds], same⟩
        · exact Or.inl ⟨List.mem_of_mem_erase member, restored.2⟩
      · cases stepped
        exact Or.inl ⟨List.mem_of_mem_erase restored.1, restored.2⟩
    · cases stepped
  · simp only [step] at stepped
    split at stepped
    · have installs := (settle_calls (Option.some.inj stepped)).1
      rw [RestoredInstall, installs] at restored
      exact Or.inl ⟨List.mem_of_mem_erase restored.1, restored.2⟩
    · cases stepped

theorem step_finishInstall {fault : Fault}
    (stepped : process.step (.finishInstall install fault) = some (.running next observations)) :
    process.RestoredInstall install := by
  simp only [step] at stepped
  split at stepped
  · rename_i pending
    exact pending
  · cases stepped

theorem step_restoreSnapshot
    (stepped : process.step (.restoreSnapshot install true) = some (.running next observations)) :
    next.node = process.node ∧ next.RestoredInstall { install with restored := true } := by
  simp only [step] at stepped
  split at stepped
  · cases stepped
    exact ⟨rfl, List.mem_cons_self, rfl⟩
  · cases stepped

/-- A restored snapshot stays so until its installation is finished. -/
theorem step_keeps_restored (stepped : process.step event = some (.running next observations))
    (restored : process.RestoredInstall install) :
    next.RestoredInstall install ∨ ∃ fault, event = .finishInstall install fault := by
  rcases (step_calls stepped).1 with same | ⟨args, termFault, saveFault, rfl⟩ | ⟨other, succeeds, rfl⟩ |
    ⟨other, fault, rfl⟩
  · rw [RestoredInstall, ← same] at restored
    exact Or.inl restored
  · exact Or.inl ((settleInstall_restored (RaftNode.installSnapshot_unrestored _ _ _ _)
      (Option.some.inj stepped)).mpr restored)
  · simp only [step] at stepped
    split at stepped
    · rename_i pending
      have different : install ≠ other := by
        rintro rfl
        exact pending.2 restored.2
      have member := (List.mem_erase_of_ne different).mpr restored.1
      split at stepped
      · cases stepped
        exact Or.inl ⟨List.mem_cons_of_mem _ member, restored.2⟩
      · cases stepped
        exact Or.inl ⟨member, restored.2⟩
    · cases stepped
  · by_cases same : install = other
    · subst same
      exact Or.inr ⟨fault, rfl⟩
    · simp only [step] at stepped
      split at stepped
      · have installs := (settle_calls (Option.some.inj stepped)).1
        rw [RestoredInstall, installs]
        exact Or.inl ⟨(List.mem_erase_of_ne same).mpr restored.1, restored.2⟩
      · cases stepped

end Process

end Raftiq
