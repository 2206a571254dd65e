import Raftiq.MembershipElections

namespace Raftiq

namespace RaftNode

/-- Only a voter leaves the followers. -/
structure Rises (before after : RaftNode) : Prop where
  id : after.id = before.id
  membership : after.persistent.membership = before.persistent.membership
  role : after.role ≠ .follower →
    before.role ≠ .follower ∨ membershipIsVoter before.persistent.membership before.id

variable {node before middle after : RaftNode}

theorem Rises.refl (node : RaftNode) : node.Rises node where
  id := rfl
  membership := rfl
  role := Or.inl

theorem Rises.trans (first : before.Rises middle) (second : middle.Rises after) : before.Rises after where
  id := second.id.trans first.id
  membership := second.membership.trans first.membership
  role risen := by
    rcases second.role risen with before | voter
    · exact first.role before
    · rw [first.membership, first.id] at voter
      exact Or.inr voter

theorem KeepsBallot.rises (kept : before.KeepsBallot after) : before.Rises after where
  id := kept.id
  membership := by rw [kept.persistent]
  role risen := by
    rcases kept.role with follower | ⟨same, _⟩
    · exact absurd follower risen
    · exact Or.inl (same ▸ risen)

theorem BallotMove.rises (move : before.BallotMove after) : before.Rises after := by
  cases move with
  | keep kept => exact kept.rises
  | enter term ahead id persistent role => exact ⟨id, by rw [persistent]; rfl, absurd role⟩
  | vote candidate voter free id persistent role =>
      exact ⟨id, by rw [persistent], fun risen => Or.inl (role ▸ risen)⟩
  | stand voter id persistent => exact ⟨id, by rw [persistent], fun _ => Or.inr voter⟩

theorem BallotPath.rises (path : before.BallotPath after) : before.Rises after := by
  induction path with
  | refl => exact .refl before
  | tail _ move ih => exact ih.trans move.rises

section Sections

variable (node : RaftNode) (fault : Fault)

theorem enterTerm_rises (term : ℕ) :
    (node.enterTerm term fault).Ensures (fun after _ => node.Rises after) fun _ => True := by
  unfold enterTerm persistState
  cases node.storage.writeSync (WALStorage.saveState (node.persistent.enterTerm term)) fault with
  | ok wal => exact ⟨rfl, rfl, absurd rfl⟩
  | failed error wal => exact ⟨rfl, rfl, Or.inl⟩
  | crashed wal => trivial

theorem handleVoteReply_rises (electionTerm : ℕ) (reply : RequestVoteReply) :
    (node.handleVoteReply electionTerm reply fault).Ensures (fun after _ => node.Rises after)
      fun _ => True := by
  unfold handleVoteReply
  split
  · refine (node.enterTerm_rises fault reply.term).andThen fun middle durable risen => ?_
    cases durable with
    | false => exact risen
    | true => exact ⟨risen.id, risen.membership, risen.role⟩
  · split
    · exact ⟨rfl, rfl, Or.inl⟩
    · exact ⟨rfl, rfl, Or.inl⟩

theorem tryBecomeLeader_rises :
    node.tryBecomeLeader.Ensures (fun after _ => node.Rises after) fun _ => True := by
  unfold tryBecomeLeader
  split
  · exact .refl node
  · rename_i candidate
    split
    · exact .refl node
    · obtain ⟨id, persistent, _⟩ := node.becomeLeaderLocked_frame
      refine ⟨id, by rw [persistent], fun _ => Or.inl ?_⟩
      rw [not_not.mp candidate]
      decide

theorem handleReadResult_rises (read : PendingRead) (peerID : NodeID) (result : ProbeResult) :
    (node.handleReadResult read peerID result fault).Ensures (fun after _ => node.Rises after)
      fun _ => True := by
  unfold handleReadResult
  cases result with
  | failed => exact .refl node
  | answered reply =>
      dsimp only
      split
      · exact (node.enterTerm_rises fault reply.term).andThen fun _ _ risen => risen
      · split
        · exact .refl node
        · split
          · exact .refl node
          · exact .refl node

end Sections

end RaftNode

theorem Process.effect_rises (process : Process) {event : Event}
    (other : ∀ stateFault leaveFault, event ≠ .pickCommitted stateFault leaveFault) :
    (process.effect event).Ensures (fun after _ => process.node.Rises after) fun _ => True := by
  cases event with
  | receiveVoteReply args reply fault => exact (process.node.handleVoteReply_rises fault args.term reply).forget
  | tryBecomeLeader => exact process.node.tryBecomeLeader_rises.forget
  | pickCommitted stateFault leaveFault => exact absurd rfl (other stateFault leaveFault)
  | receiveProbeResult read peerID result fault =>
      simp only [effect]
      split
      · exact (process.node.handleReadResult_rises fault _ peerID result).forget
      · exact .refl process.node
  | _ => exact (process.effect_path rfl).mono (fun _ _ => RaftNode.BallotPath.rises) fun _ _ => trivial

theorem mem_voters_of_isVoter {membership : Membership} {v : NodeID} (voter : membershipIsVoter membership v)
    (stable : membership.joint = none) : v ∈ membership.current.voters := by
  unfold membershipIsVoter at voter
  split at voter
  · cases voter
  · rw [stable] at voter
    exact of_decide_eq_true voter

namespace RaftNode

/-- A candidate or leader whose membership is not joint is one of its voters. -/
def StandsAsVoter (node : RaftNode) : Prop :=
  node.role ≠ .follower → node.persistent.membership.joint = none →
    node.id ∈ node.persistent.membership.current.voters

/-- The membership that the next committed entry brings, if it is a configuration entry. -/
def applying (node : RaftNode) : Option Membership :=
  if node.lastApplied < node.commitIndex then
    match node.log.get (node.lastApplied + 1) with
    | none => none
    | some entry => if isConfigurationEntry entry.data then (nextMembership entry).toOption else none
  else none

/-- The next committed entry is a configuration entry that leaves the node out. -/
def appliesRemoval (node : RaftNode) : Bool :=
  node.applying.any fun membership => membership.joint = none ∧ ¬ membershipIsVoter membership node.id

/-- A removal is not applied in the middle of an election, and a leader that applies one saves that
it steps down. -/
def AppliesInTime (node : RaftNode) (leaveFault : Fault) : Prop :=
  node.appliesRemoval → node.role = .follower ∨
    node.role = .leader ∧ (leaveFault = .none ∨ leaveFault = .crash)

instance (node : RaftNode) (leaveFault : Fault) : Decidable (node.AppliesInTime leaveFault) :=
  inferInstanceAs (Decidable (_ → _))

variable {node after : RaftNode}

theorem StandsAsVoter.rise (stands : node.StandsAsVoter) (rises : node.Rises after) : after.StandsAsVoter := by
  intro risen stable
  rw [rises.membership] at stable ⊢
  rw [rises.id]
  rcases rises.role risen with before | voter
  · exact stands before stable
  · exact mem_voters_of_isVoter voter stable

theorem StandsAsVoter.applyConfigurationEntryLocked (stands : node.StandsAsVoter) (entry : LogEntry)
    (stateFault : Fault) {leaveFault : Fault}
    (leaves : ∀ membership, nextMembership entry = .ok membership → membership.joint = none →
      ¬ membershipIsVoter membership node.id → node.role = .follower ∨
        node.role = .leader ∧ (leaveFault = .none ∨ leaveFault = .crash)) :
    (node.applyConfigurationEntryLocked entry stateFault leaveFault).Ensures
      (fun after _ => after.id = node.id ∧ after.StandsAsVoter) fun _ => True := by
  unfold RaftNode.applyConfigurationEntryLocked
  cases next : nextMembership entry with
  | error error => exact ⟨rfl, stands⟩
  | ok membership =>
      dsimp only
      cases stateFault with
      | none =>
          rw [persistState_none]
          simp only [Outcome.andThen_done, not_true_eq_false, if_false]
          split
          · rename_i removed
            simp only [mustLeave, decide_eq_true_eq] at removed
            obtain ⟨leader, stable, gone⟩ := removed
            rcases leaves membership next stable gone with follower | ⟨_, rfl | rfl⟩
            · cases leader.symm.trans follower
            · exact ⟨rfl, fun risen => absurd rfl risen⟩
            · trivial
          · rename_i stays
            refine ⟨rfl, fun risen (stable : membership.joint = none) => mem_voters_of_isVoter ?_ stable⟩
            by_contra gone
            rcases leaves membership next stable gone with follower | ⟨leader, _⟩
            · exact risen follower
            · exact stays (by simp [mustLeave, leader, stable, gone])
      | crash => trivial
      | writeFails | syncFails | diskFull => exact ⟨rfl, stands⟩

theorem StandsAsVoter.pickCommitted (stands : node.StandsAsVoter) (stateFault : Fault) {leaveFault : Fault}
    (inTime : node.AppliesInTime leaveFault) :
    (node.pickCommitted stateFault leaveFault).Ensures
      (fun after _ => after.id = node.id ∧ after.StandsAsVoter) fun _ => True := by
  unfold RaftNode.pickCommitted
  split
  · exact ⟨rfl, stands⟩
  · rename_i unfinished
    split
    · exact ⟨rfl, stands⟩
    · rename_i entry found
      split
      · rename_i configuration
        refine (stands.applyConfigurationEntryLocked entry stateFault ?_).andThen fun middle applied voter => ?_
        · intro membership next stable gone
          apply inTime
          simp [appliesRemoval, applying, not_le.mp unfinished, found, configuration, next, Except.toOption,
            stable, gone]
        · cases applied with
          | false => exact voter
          | true => exact voter
      · exact ⟨rfl, stands⟩

end RaftNode

namespace Process

/-- Elections and removals do not cross. -/
def AppliesInTime (process : Process) : Event → Prop
  | .pickCommitted _ leaveFault => process.node.AppliesInTime leaveFault
  | _ => True

variable {process next : Process} {event : Event} {observations : List Observation}

theorem step_standsAsVoter (stands : process.node.StandsAsVoter) (inTime : process.AppliesInTime event)
    (stepped : process.step event = some (.running next observations)) :
    next.node.id = process.node.id ∧ next.node.StandsAsVoter := by
  cases event with
  | pickCommitted stateFault leaveFault =>
      exact step_ensures stepped (stands.pickCommitted stateFault inTime).forget
  | _ =>
      have rises := step_ensures stepped (process.effect_rises (by simp))
      exact ⟨rises.id, stands.rise rises⟩

end Process

/-- The acting node does not apply its removal while it is a candidate, and steps down if it leads. -/
def MemberWorld.AppliesInTime (state : MemberWorld) : ClusterAction → Prop
  | .take (.act v event) => ∀ process, state.world.host v = .up process → process.AppliesInTime event
  | _ => True

namespace Deployment

variable {deployment : Deployment} {state after : MemberWorld} {v : NodeID}

theorem boot_standsAsVoter {cluster : Cluster} {wal : WALStorage} {process : Process}
    (booted : cluster.boot v wal = .ok process) : process.node.id = v ∧ process.node.StandsAsVoter := by
  obtain ⟨log, _, rfl⟩ := Cluster.boot_ok booted
  exact ⟨rfl, fun risen => absurd rfl risen⟩

theorem step_standsAsVoter {action : ClusterAction}
    (stand : ∀ w process, state.world.host w = .up process → process.node.id = w ∧ process.node.StandsAsVoter)
    (inTime : state.AppliesInTime action) (stepped : deployment.step state action = some after) {process : Process}
    (up : after.world.host v = .up process) : process.node.id = v ∧ process.node.StandsAsVoter := by
  rcases step_host stepped up with same | ⟨before, event, observations, running, rfl, ran⟩ |
    ⟨wal, reopened, keep, _, _, _, booted⟩ | ⟨before, node, running, kept, _, rfl⟩
  · exact stand v process same
  · obtain ⟨id, stands⟩ := stand v before running
    obtain ⟨keptID, standsNext⟩ := Process.step_standsAsVoter stands (inTime before running) ran
    exact ⟨keptID.trans id, standsNext⟩
  · exact boot_standsAsVoter booted
  · obtain ⟨id, stands⟩ := stand v before running
    exact ⟨kept.id.trans id, stands.rise kept.rises⟩

/-- A leader is a voter of its membership, unless that is joint, in every run in which no candidate
applies its own removal and every leader that applies its own removal saves its step down. -/
theorem leader_is_voter {final : MemberWorld}
    (reached : Reaches deployment.step MemberWorld.AppliesInTime deployment.initial final) {process : Process}
    (up : final.world.host v = .up process) (leads : process.node.role = .leader)
    (stable : process.node.persistent.membership.joint = none) :
    v ∈ process.node.persistent.membership.current.voters := by
  have stand : ∀ w process, final.world.host w = .up process →
      process.node.id = w ∧ process.node.StandsAsVoter := by
    refine reached.invariant (fun state : MemberWorld => ∀ w process, state.world.host w = .up process →
      process.node.id = w ∧ process.node.StandsAsVoter) ?_ ?_
    · intro w process up
      have booted : deployment.cluster.boot w (deployment.storage w) = .ok _ := rfl
      cases up
      exact boot_standsAsVoter booted
    · exact fun before action after stand inTime stepped w process => step_standsAsVoter stand inTime stepped
  obtain ⟨id, stands⟩ := stand v process up
  rw [← id]
  exact stands (by simp [leads]) stable

/-- The condition, evaluated. -/
def checksRemoval (state : MemberWorld) : ClusterAction → Bool
  | .take (.act v (.pickCommitted _ leaveFault)) =>
      (state.world.host v).process.all fun process => process.node.AppliesInTime leaveFault
  | _ => true

theorem checksRemoval_sound (state : MemberWorld) (action : ClusterAction)
    (checked : checksRemoval state action) : state.AppliesInTime action := by
  cases action with
  | take action =>
      cases action with
      | act v event =>
          cases event with
          | pickCommitted stateFault leaveFault =>
              intro process up
              simpa [checksRemoval, up, Host.process, Process.AppliesInTime] using checked
          | _ => exact fun _ _ => trivial
      | _ => trivial
  | _ => trivial

def leadsWithout (v : NodeID) (state : MemberWorld) : Bool :=
  (state.world.host v).process.any fun process =>
    process.node.role = .leader ∧ process.node.persistent.membership.joint = none ∧
      v ∉ process.node.persistent.membership.current.voters

/-- `D` is added, applies that, and is elected. -/
theorem joined_leader_is_voter : ∃ (final : MemberWorld) (process : Process),
    final.world.host "D" = .up process ∧ process.node.role = .leader ∧
      "D" ∈ process.node.persistent.membership.current.voters := by
  let trio := five ["A", "B", "C"]
  have run : ∃ final, Reaches trio.step MemberWorld.AppliesInTime trio.initial final ∧
      (final.world.host "D").process.any fun process =>
        process.node.role = .leader ∧ process.node.persistent.membership.joint = none :=
    Reaches.of_leadsTo checksRemoval checksRemoval_sound
      (stands "A" 1 0 ["B"] ++ [.take (.act "A" .tryBecomeLeader)] ++ addsD ++ ships additions "B" 2 2 2 ++
        ships additions "C" 0 2 2 ++ ships additions "D" 2 2 2 ++ applies "B" 2 ++ applies "C" 2 ++
        applies "D" 2 ++ stands "D" 2 2 ["A", "C"] ++ [.take (.act "D" .tryBecomeLeader)])
      (by decide +kernel)
  obtain ⟨final, reached, leading⟩ := run
  obtain ⟨process, up, leads⟩ := (Option.any_eq_true _ _).mp leading
  obtain ⟨leader, stable⟩ := of_decide_eq_true leads
  have running := Host.process_eq_some.mp up
  exact ⟨final, process, running, leader, leader_is_voter reached running leader stable⟩

/-- `B` is removed and stands before it applies that; it applies it after the votes have come in, and
becomes leader.

Or: it becomes leader first, applies its removal and cannot save that it steps down. -/
theorem removed_node_leads :
    let quintet := five ["A", "B", "C", "D", "E"]
    (∃ final : MemberWorld, Reaches quintet.step (fun _ action => changesInTurn action) quintet.initial final ∧
      leadsWithout "B" final) ∧
    ∃ final : MemberWorld, Reaches quintet.step (fun _ _ => True) quintet.initial final ∧
      leadsWithout "B" final := by
  constructor
  · exact Reaches.of_leadsTo (fun _ action => changesInTurn action) (fun _ _ admitted => admitted)
      (stands "A" 1 0 ["B", "C"] ++ [.take (.act "A" .tryBecomeLeader)] ++ removesB ++
        stands "B" 2 2 ["C", "D", "E"] ++ applies "B" 2 ++ [.take (.act "B" .tryBecomeLeader)])
      (by decide +kernel)
  · exact Reaches.of_leadsTo (fun _ _ => true) (fun _ _ _ => trivial)
      (stands "A" 1 0 ["B", "C"] ++ [.take (.act "A" .tryBecomeLeader)] ++ removesB ++
        stands "B" 2 2 ["C", "D"] ++ [.take (.act "B" .tryBecomeLeader)] ++ applies "B" 1 ++
        [.take (.act "B" (.pickCommitted .none .writeFails))])
      (by decide +kernel)

end Deployment

end Raftiq
