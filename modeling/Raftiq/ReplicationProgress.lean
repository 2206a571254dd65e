import Raftiq.CommitSafety
import Raftiq.MembershipUpdates
import Raftiq.Raft.Progress

namespace Raftiq

namespace Process

/-- The peer whose refusal the event handles. -/
def rejectedBy (process : Process) : Event → Option NodeID
  | .receiveAppendReply peerID args reply _ => if process.node.Rejects args reply then some peerID else none
  | _ => none

variable {process next : Process} {event : Event} {peerID : NodeID}

theorem effect_rejected (rejected : process.rejectedBy event = some peerID) :
    process.effect event = .done (process.node.backOff peerID) () := by
  cases event with
  | receiveAppendReply sender args reply fault =>
      simp only [rejectedBy, Option.ite_none_right_eq_some, Option.some.injEq] at rejected
      obtain ⟨rejects, rfl⟩ := rejected
      rw [effect, rejects.backOff sender fault]
      rfl
  | _ => cases rejected

/-- All that a leader does but the handling of refusals. -/
theorem effect_gains (leads : process.node.role = .leader) (accepted : process.rejectedBy event = none) :
    (process.effect event).Ensures (fun after _ => process.node.Gains after) fun _ => True := by
  cases event with
  | tryBecomeLeader =>
      simp only [effect, RaftNode.tryBecomeLeader, leads, ne_eq, reduceCtorEq, not_false_eq_true, if_true]
      exact .refl process.node
  | startElection fault => exact (process.node.startElection_gains fault).forget
  | receiveRequestVote args termFault voteFault =>
      exact (process.node.requestVote_gains termFault voteFault args).forget
  | receiveVoteReply args reply fault => exact (process.node.handleVoteReply_gains fault args.term reply).forget
  | propose data fault => exact (process.node.propose_gains fault data).forget
  | receiveAppendEntries args purpose termFault logFault =>
      exact (process.node.appendEntries_gains termFault logFault args).forget
  | receiveAppendReply peerID args reply fault =>
      have accepts : ¬ process.node.Rejects args reply := by
        intro rejects
        simp [rejectedBy, rejects] at accepted
      exact (process.node.handleAppendEntriesReply_gains fault peerID args reply accepts).forget
  | pickCommitted stateFault leaveFault => exact (process.node.pickCommitted_gains stateFault leaveFault).forget
  | createSnapshot index data saveFault compactFault =>
      exact (process.node.createSnapshot_gains saveFault compactFault index data).forget
  | receiveInstallSnapshot args termFault saveFault =>
      exact (process.node.installSnapshot_gains termFault saveFault args).forget
  | finishInstall install fault => exact (process.node.finishInstall_gains fault install).forget
  | receiveInstallReply peerID args reply fault =>
      exact (process.node.handleInstallSnapshotReply_gains fault peerID args reply).forget
  | markApplied =>
      simp only [effect]
      split
      · exact .of_same rfl rfl rfl
      · exact .refl process.node
  | receiveProbeResult read peerID result fault =>
      simp only [effect]
      split
      · exact (process.node.handleReadResult_gains fault _ peerID result).forget
      · exact .refl process.node
  | requestVotes | replicateTo peerID | sendApplied | sendInstallSnapshot peerID
  | restoreSnapshot install succeeds | beginRead read | probeRead read peerID | cancelRead read =>
      exact .refl process.node

/-- What a step of a leader does to its indexes. -/
theorem advance_progress (leads : process.node.role = .leader) (advanced : process.advance event = some next) :
    process.node.Gains next.node ∧ process.rejectedBy event = none ∨
      ∃ peerID, process.rejectedBy event = some peerID ∧ next.node = process.node.backOff peerID := by
  obtain ⟨_, stepped⟩ := advance_running advanced
  cases handled : process.rejectedBy event with
  | none => exact Or.inl ⟨step_ensures stepped (effect_gains leads handled), rfl⟩
  | some peerID =>
      have same := (step_effect stepped).symm.trans (effect_rejected handled)
      exact Or.inr ⟨peerID, rfl, (Outcome.done.inj same).1⟩

end Process

namespace RaftNode

theorem proposeEntry_gains (node : RaftNode) (call : MemberCall) (encoded : Except ConfigEntryError Bytes)
    (fault : Fault) (encodeFailed : ConfigEntryError → MemberError) (proposeFailed : ProposeError → MemberError)
    (next : ℕ → MemberStage) :
    (node.proposeEntry call encoded fault encodeFailed proposeFailed next).Ensures
      (fun after _ => node.Gains after) fun _ => True := by
  cases encoded with
  | error error => exact .refl node
  | ok data =>
      refine (node.propose_gains fault data).andThen fun after result gains => ?_
      cases result with
      | error error => exact gains
      | ok index => exact gains

theorem resumeMember_gains (node : RaftNode) (call : MemberCall) (fault : Fault) :
    (node.resumeMember call fault).Ensures (fun after _ => node.Gains after) fun _ => True := by
  unfold resumeMember
  cases call.stage with
  | enterJoint => exact node.proposeEntry_gains call _ fault _ _ _
  | leaveJoint => exact node.proposeEntry_gains call _ fault _ _ _
  | _ => exact .refl node

theorem beginRemove_node (node : RaftNode) (peerID : NodeID) : (node.beginMember .remove peerID).1 = node := by
  unfold beginMember
  split
  · rfl
  · dsimp only
    split
    · rfl
    · rfl

end RaftNode

namespace MemberProcess

variable {state after : MemberProcess} {action : MemberAction}

/-- A step of a leader that is not the beginning of `AddMember`. -/
def Leads (state : MemberProcess) (action : MemberAction) : Prop :=
  state.process.node.role = .leader ∧ ∀ peerID, action ≠ .begin .add peerID

/-- No refusal is handled when the leader knows that the peer has the entry before the next one. -/
def OnTime (state : MemberProcess) : MemberAction → Prop
  | .act event => ∀ peerID ∈ state.process.rejectedBy event, state.process.node.CanBackOff peerID
  | _ => True

theorem book_process (state : MemberProcess) (process : Process) (others : List MemberCall)
    (change : MemberChange) (peerID : NodeID) (progress : MemberProgress) :
    (state.book process others change peerID progress).process = process := by
  cases progress with
  | waiting call => rfl
  | returned result => rfl

theorem step_progress (leads : state.Leads action) (stepped : state.step action = some after) :
    state.process.node.Gains after.process.node ∧ state.OnTime action ∨
      ∃ peerID, (state.OnTime action ↔ state.process.node.CanBackOff peerID) ∧
        after.process.node = state.process.node.backOff peerID := by
  cases action with
  | act event =>
      obtain ⟨process, advanced, rfl⟩ := Option.map_eq_some_iff.mp stepped
      rcases Process.advance_progress leads.1 advanced with ⟨gains, handled⟩ | ⟨peerID, handled, same⟩
      · exact Or.inl ⟨gains, fun peerID rejected => by simp [handled] at rejected⟩
      · exact Or.inr ⟨peerID, by simp [OnTime, handled], same⟩
  | begin change peerID =>
      cases change with
      | add => exact absurd rfl (leads.2 peerID)
      | remove =>
          simp only [step, Option.some.injEq] at stepped
          subst stepped
          rw [book_process]
          refine Or.inl ⟨?_, trivial⟩
          change state.process.node.Gains (state.process.node.beginMember .remove peerID).1
          rw [RaftNode.beginRemove_node]
          exact .refl _
  | resume call fault =>
      have ensures := state.process.node.resumeMember_gains call fault
      simp only [step] at stepped
      split at stepped
      · split at stepped
        · cases stepped
        · rename_i node progress resumed
          cases stepped
          rw [resumed] at ensures
          rw [book_process]
          exact Or.inl ⟨ensures, trivial⟩
      · cases stepped
  | expire call =>
      simp only [step] at stepped
      split at stepped
      · cases stepped
        rw [book_process]
        exact Or.inl ⟨.refl _, trivial⟩
      · cases stepped

/-- No step of a leader lowers a match index. -/
theorem step_matched (leads : state.Leads action) (stepped : state.step action = some after) (peerID : NodeID) :
    state.process.node.matchIndex peerID ≤ after.process.node.matchIndex peerID := by
  rcases step_progress leads stepped with ⟨gains, _⟩ | ⟨_, _, same⟩
  · exact gains.matched peerID
  · rw [same, RaftNode.backOff_matchIndex]

theorem step_ordered_iff (ordered : state.process.node.ProgressOrdered) (leads : state.Leads action)
    (stepped : state.step action = some after) : after.process.node.ProgressOrdered ↔ state.OnTime action := by
  rcases step_progress leads stepped with ⟨gains, onTime⟩ | ⟨peerID, iff, same⟩
  · exact ⟨fun _ => onTime, fun _ => gains.progressOrdered ordered⟩
  · rw [iff, same]
    exact RaftNode.backOff_ordered_iff ordered

theorem elected_ordered {before elected : Process} {observations : List Observation}
    (stands : before.node.role = .candidate)
    (wins : before.step .tryBecomeLeader = some (.running elected observations))
    (leads : elected.node.role = .leader) : elected.node.ProgressOrdered := by
  have same := Process.step_effect wins
  simp only [Process.effect, RaftNode.tryBecomeLeader, stands, ne_eq, not_true_eq_false, if_false] at same
  split at same
  · have kept : before.node = elected.node := (Outcome.done.inj same).1
    rw [← kept, stands] at leads
    cases leads
  · have won : before.node.becomeLeaderLocked = elected.node := (Outcome.done.inj same).1
    rw [← won]
    exact before.node.becomeLeaderLocked_ordered

/-- While a node leads, no step lowers a match index.  Every match index stays below the next index if and only
if no refusal is handled when the next index stands right above the match index. -/
theorem progress_indexes_ordered {before elected : Process} {observations : List Observation}
    (stands : before.node.role = .candidate)
    (wins : before.step .tryBecomeLeader = some (.running elected observations))
    (leads : elected.node.role = .leader) (calls : List MemberCall) (returned : List MemberReturn) :
    (∀ middle final, Reaches step Leads { process := elected, calls := calls, returned := returned } middle →
      Reaches step Leads middle final →
        ∀ peerID, middle.process.node.matchIndex peerID ≤ final.process.node.matchIndex peerID) ∧
    ∀ state, Reaches step (fun state action => state.Leads action ∧ state.OnTime action)
        { process := elected, calls := calls, returned := returned } state →
      state.process.node.ProgressOrdered ∧
        ∀ action after, state.Leads action → state.step action = some after →
          (after.process.node.ProgressOrdered ↔ state.OnTime action) := by
  refine ⟨fun middle final _ reached peerID => ?_, fun state reached => ?_⟩
  · refine reached.invariant (fun final =>
      middle.process.node.matchIndex peerID ≤ final.process.node.matchIndex peerID) le_rfl ?_
    exact fun _ _ _ earlier leading stepped => earlier.trans (step_matched leading stepped peerID)
  · have ordered : state.process.node.ProgressOrdered := by
      refine reached.invariant (fun state => state.process.node.ProgressOrdered)
        (elected_ordered stands wins leads) ?_
      exact fun _ _ _ earlier allowed stepped => (step_ordered_iff earlier allowed.1 stepped).mpr allowed.2
    exact ⟨ordered, fun _ _ leading stepped => step_ordered_iff ordered leading stepped⟩

instance (state : MemberProcess) : DecidablePred state.Leads
  | .begin .add peerID => .isFalse fun leads => leads.2 peerID rfl
  | .act _ | .begin .remove _ | .resume _ _ | .expire _ =>
      decidable_of_iff (state.process.node.role = .leader) ⟨fun leads => ⟨leads, nofun⟩, And.left⟩

instance (state : MemberProcess) : DecidablePred state.OnTime
  | .act event =>
      inferInstanceAs (Decidable (∀ peerID ∈ state.process.rejectedBy event,
        state.process.node.CanBackOff peerID))
  | .begin _ _ | .resume _ _ | .expire _ => .isTrue trivial

/-- `A` is elected and replicates an entry to `B`, and `C` refuses it. -/
theorem progress_stays_ordered : ∃ state : MemberProcess, state.process.node.matchIndex "B" = 1 ∧
    "B" ∈ state.process.node.peerIDs ∧ state.process.node.ProgressOrdered := by
  have run : ∃ start, Cluster.trio.boot "A" (Cluster.trio.bootstrapped "A") = .ok start ∧
      ∃ before, Reaches Process.advance (fun _ _ => True) start before ∧ before.node.role = .candidate ∧
        (before.advance .tryBecomeLeader).any fun elected => elected.node.role = .leader ∧
          leadsTo step (fun state action => decide (state.Leads action ∧ state.OnTime action))
            (fun state => state.process.node.matchIndex "B" = 1 ∧ "B" ∈ state.process.node.peerIDs)
            { process := elected, calls := [], returned := [] }
            [.act (.propose [7] .none), .act (.replicateTo "B"), .act (.replicateTo "C"),
              .act (.receiveAppendReply "B" ⟨1, "A", 0, 0, [⟨1, 1, [7]⟩], 0⟩ ⟨1, "B", true⟩ .none),
              .act (.receiveAppendReply "C" ⟨1, "A", 0, 0, [⟨1, 1, [7]⟩], 0⟩ ⟨1, "C", false⟩ .none)] :=
    ⟨_, rfl, Reaches.of_leadsTo (fun _ _ => true) (fun _ _ _ => trivial)
      [.startElection .none, .receiveVoteReply ⟨1, "A", 0, 0⟩ ⟨1, "B", true⟩ .none] (by decide +kernel)⟩
  obtain ⟨_, _, before, _, stands, elects⟩ := run
  obtain ⟨elected, advanced, holds⟩ := (Option.any_eq_true _ _).mp elects
  obtain ⟨leads, onward⟩ := of_decide_eq_true holds
  obtain ⟨_, wins⟩ := Process.advance_running advanced
  obtain ⟨state, reached, matched, peer⟩ :=
    Reaches.of_leadsTo _ (fun _ _ => of_decide_eq_true) _ onward
  exact ⟨state, matched, peer, ((progress_indexes_ordered stands wins leads [] []).2 state reached).1⟩

end MemberProcess

namespace Cluster

/-- The call with which `B` begins to send to `C`, which has no entries. -/
def probesC : AppendEntriesArgs :=
  { term := 2, leaderID := "B", prevLogIndex := 1, prevLogTerm := 1, entries := [], leaderCommit := 0 }

/-- `B` has entry 1 from `A` and is elected in term 2.  Two calls to `C` are under way when the first refusal
arrives; a third call brings entry 1 to `C`, and the second refusal is handled last. -/
theorem late_refusal_lowers_next_index : ∃ (world : World) (process : Process),
    Reaches trio.step (fun _ action => action.replicates) trio.initial world ∧ world.host "B" = .up process ∧
      process.node.role = .leader ∧ "C" ∈ process.node.peerIDs ∧ process.node.matchIndex "C" = 1 ∧
      process.node.nextIndex "C" = some 1 := by
  have run : ∃ world, Reaches trio.step (fun _ action => action.replicates) trio.initial world ∧
      (world.host "B").process.any (fun process => process.node.role = .leader ∧ "C" ∈ process.node.peerIDs ∧
        process.node.matchIndex "C" = 1 ∧ process.node.nextIndex "C" = some 1) :=
    Reaches.of_leadsTo (fun _ action => action.replicates) (fun _ _ replicates => replicates)
      (commitOne ++
        ([.act "B" (.startElection .none), .act "B" .requestVotes,
          .act "C" (.receiveRequestVote ⟨2, "B", 1, 1⟩ .none .none),
          .act "B" (.receiveVoteReply ⟨2, "B", 1, 1⟩ ⟨2, "C", true⟩ .none), .act "B" .tryBecomeLeader,
          .act "B" (.replicateTo "C"), .act "B" (.replicateTo "C"),
          .act "C" (.receiveAppendEntries probesC .replication .none .none),
          .act "C" (.receiveAppendEntries probesC .replication .none .none),
          .act "B" (.receiveAppendReply "C" probesC ⟨2, "C", false⟩ .none),
          .act "B" (.replicateTo "C"),
          .act "C" (.receiveAppendEntries ⟨2, "B", 0, 0, [⟨1, 1, [7]⟩], 0⟩ .replication .none .none),
          .act "B" (.receiveAppendReply "C" ⟨2, "B", 0, 0, [⟨1, 1, [7]⟩], 0⟩ ⟨2, "C", true⟩ .none),
          .act "B" (.receiveAppendReply "C" probesC ⟨2, "C", false⟩ .none)] : List Action))
      (by decide +kernel)
  obtain ⟨world, reached, found⟩ := run
  obtain ⟨process, running, holds⟩ := (Option.any_eq_true _ _).mp found
  exact ⟨world, process, reached, Host.process_eq_some.mp running, of_decide_eq_true holds⟩

end Cluster

end Raftiq
