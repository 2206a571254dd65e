import Raftiq.Raft.Casts

namespace Raftiq

open Consensus

/-- Whatever a restart finds in the storage has this membership. -/
def WALStorage.Carries (membership : Membership) (wal : WALStorage) : Prop :=
  ∀ contents, wal.Survives contents → contents.state.membership = membership

def RaftNode.Carries (membership : Membership) (node : RaftNode) : Prop :=
  node.persistent.membership = membership ∧ node.storage.Carries membership

variable {cluster : Cluster} {ballots later : Ballots NodeID} {v : NodeID} {node before after : RaftNode}
  {wal : WALStorage} {membership : Membership}

namespace RaftNode

theorem Carries.of_spares (carries : node.Carries membership) (spares : node.Spares wal) : wal.Carries membership := by
  intro contents survives
  rcases spares contents survives with ⟨earlier, survived, same⟩ | extended
  · exact same ▸ carries.2 earlier survived
  · exact extended.2.trans carries.1

theorem Carries.of_move (carries : before.Carries membership) (move : BallotMove before after) :
    after.Carries membership := by
  have stored : after.persistent.membership = before.persistent.membership →
      (∀ contents, after.storage.Survives contents → contents.state = after.persistent) →
      after.Carries membership := by
    intro same durable
    refine ⟨same.trans carries.1, fun contents survives => ?_⟩
    rw [durable contents survives]
    exact same.trans carries.1
  cases move with
  | keep kept => exact ⟨kept.persistent ▸ carries.1, carries.of_spares kept.storage⟩
  | enter term ahead id persistent role durable => exact stored (persistent ▸ rfl) durable
  | vote candidate voter free id persistent role votes durable => exact stored (persistent ▸ rfl) durable
  | stand voter id persistent role votes durable => exact stored (persistent ▸ rfl) durable

theorem Carries.of_path (carries : before.Carries membership) (path : before.BallotPath after) :
    after.Carries membership := by
  induction path with
  | refl => exact carries
  | tail _ move ih => exact ih.of_move move

theorem Carries.of_lost (carries : before.Carries membership) (lost : before.BallotLost wal) : wal.Carries membership := by
  obtain ⟨middle, path, spares⟩ := lost
  exact (carries.of_path path).of_spares spares

theorem Carries.handleVoteReply (carries : node.Carries membership) (electionTerm : ℕ) (reply : RequestVoteReply)
    (fault : Fault) :
    (node.handleVoteReply electionTerm reply fault).Ensures (fun after _ => after.Carries membership)
      fun wal => wal.Carries membership := by
  unfold RaftNode.handleVoteReply
  split
  · rename_i ahead
    refine ((node.enterTerm_ensures fault ahead).mono (fun _ _ => carries.of_move)
      fun _ => carries.of_spares).andThen fun middle durable entered => ?_
    cases durable with
    | false => exact entered
    | true => exact entered
  · split
    · exact carries
    · exact carries

theorem Carries.tryBecomeLeader (carries : node.Carries membership) :
    node.tryBecomeLeader.Ensures (fun after _ => after.Carries membership) fun wal => wal.Carries membership := by
  unfold RaftNode.tryBecomeLeader
  split
  · exact carries
  · split
    · exact carries
    · obtain ⟨_, persistent, _, _, _, storage, _⟩ := node.becomeLeaderLocked_frame
      change node.becomeLeaderLocked.Carries membership
      rw [Carries, persistent, storage]
      exact carries

/-- The next committed entry is a configuration entry. -/
def appliesConfiguration (node : RaftNode) : Bool :=
  decide (node.lastApplied < node.commitIndex) &&
    (node.log.get (node.lastApplied + 1)).any fun entry => isConfigurationEntry entry.data

theorem pickCommitted_command (command : ¬ node.appliesConfiguration) (stateFault leaveFault : Fault) :
    ∃ stage, node.pickCommitted stateFault leaveFault = .done node stage := by
  unfold pickCommitted
  split
  · exact ⟨_, rfl⟩
  · rename_i unfinished
    split
    · exact ⟨_, rfl⟩
    · rename_i entry found
      have behind : node.lastApplied < node.commitIndex := by omega
      simp only [appliesConfiguration, behind, found, decide_true, Option.any_some, Bool.true_and] at command
      rw [if_neg command]
      exact ⟨_, rfl⟩

end RaftNode

namespace Process

variable {process : Process} {event : Event}

/-- No read and no configuration entry: the sections of a cluster whose membership is fixed. -/
def fixesMembership (process : Process) : Event → Bool
  | .beginRead _ | .probeRead _ _ | .receiveProbeResult _ _ _ _ | .cancelRead _ => false
  | .pickCommitted _ _ => ! process.node.appliesConfiguration
  | _ => true

theorem keepsVote_of_fixed (fixed : process.fixesMembership event) : keepsVote ∅ event := by
  cases event with
  | receiveRequestVote args termFault voteFault => exact Set.notMem_empty _
  | beginRead read | probeRead read peerID | receiveProbeResult read peerID result fault | cancelRead read =>
      cases fixed
  | _ => trivial

theorem pickCommitted_of_fixed {stateFault leaveFault : Fault}
    (fixed : process.fixesMembership (.pickCommitted stateFault leaveFault)) :
    ¬ process.node.appliesConfiguration := by
  simpa [fixesMembership] using fixed

theorem resigns_of_fixed (fixed : process.fixesMembership event) : process.resigns event = none := by
  cases event with
  | pickCommitted stateFault leaveFault =>
      refine if_neg fun removes => pickCommitted_of_fixed fixed ?_
      unfold RaftNode.removesItself at removes
      unfold RaftNode.appliesConfiguration
      cases found : process.node.log.get (process.node.lastApplied + 1) with
      | none => simp [found] at removes
      | some entry =>
          simp only [found, Bool.and_eq_true] at removes
          simp [removes.1, removes.2.1]
  | _ => rfl

theorem effect_carries (carries : process.node.Carries membership) (fixed : process.fixesMembership event) :
    (process.effect event).Ensures (fun after _ => after.Carries membership) fun wal => wal.Carries membership := by
  cases event with
  | receiveVoteReply args reply fault => exact (carries.handleVoteReply args.term reply fault).forget
  | tryBecomeLeader => exact carries.tryBecomeLeader.forget
  | pickCommitted stateFault leaveFault =>
      obtain ⟨stage, picked⟩ := RaftNode.pickCommitted_command (pickCommitted_of_fixed fixed) stateFault leaveFault
      rw [effect, picked]
      exact carries
  | receiveProbeResult read peerID result fault => cases fixed
  | _ => exact (process.effect_path rfl).mono (fun _ _ => carries.of_path) fun _ => carries.of_lost

/-- A leader after a step has led before it, or has been elected in it. -/
theorem step_leads {next : Process} {observations : List Observation}
    (stepped : process.step event = some (.running next observations)) (leads : next.node.role = .leader) :
    next.node.persistent.currentTerm = process.node.persistent.currentTerm ∧
      (process.node.role = .leader ∨ event = .tryBecomeLeader ∧ process.node.role = .candidate ∧
        membershipHasQuorum process.node.persistent.membership process.node.votesReceived) := by
  rcases step_reigns stepped with rfl | reigns
  · obtain ⟨_, elected, _⟩ := settle_running (Option.some.inj stepped)
    unfold RaftNode.tryBecomeLeader at elected
    split at elected
    · rw [← (Outcome.done.inj elected).1] at leads ⊢
      exact ⟨rfl, Or.inl leads⟩
    · rename_i candidate
      split at elected
      · rw [← (Outcome.done.inj elected).1] at leads ⊢
        exact ⟨rfl, Or.inl leads⟩
      · rename_i enough
        rw [← (Outcome.done.inj elected).1, process.node.becomeLeaderLocked_frame.2.1]
        exact ⟨rfl, Or.inr ⟨rfl, not_not.mp candidate, not_not.mp enough⟩⟩
  · obtain ⟨led, term, _⟩ := reigns leads
    exact ⟨term, Or.inl led⟩

end Process

def Host.Leads (term : ℕ) : Host → Prop
  | .up process => process.node.role = .leader ∧ process.node.persistent.currentTerm = term
  | .down _ => False

instance (term : ℕ) : (host : Host) → Decidable (host.Leads term)
  | .up process => inferInstanceAs
      (Decidable (process.node.role = .leader ∧ process.node.persistent.currentTerm = term))
  | .down _ => .isFalse id

def Host.Carries (membership : Membership) : Host → Prop
  | .up process => process.node.Carries membership
  | .down wal => wal.Carries membership

namespace World

def fixesMembership (world : World) : Action → Bool
  | .act v event =>
      match world.host v with
      | .up process => process.fixesMembership event
      | .down _ => true
  | .crash _ | .restart _ _ => true

def Leads (world : World) (v : NodeID) (term : ℕ) : Prop :=
  (world.host v).Leads term

instance (world : World) (v : NodeID) (term : ℕ) : Decidable (world.Leads v term) :=
  inferInstanceAs (Decidable ((world.host v).Leads term))

/-- What the votes of the nodes have to do with the ballots cast so far. -/
structure Honest (cluster : Cluster) (ballots : Ballots NodeID) (world : World) : Prop where
  casts : ∀ v, (world.host v).Casts ∅ ballots v
  carries : ∀ v, (world.host v).Carries (cluster.view v)
  leads : ∀ v term, world.Leads v term → ballots.Wins cluster.membership.IsQuorum term v
  trace : ∀ entry ∈ world.trace, entry.2.Honest ballots

variable {world : World}

theorem Honest.update {host : Host} {observations : List Observation}
    (honest : world.Honest cluster ballots) (added : Ballots.AddedBy v ballots later)
    (casts : host.Casts ∅ later v) (carries : host.Carries (cluster.view v))
    (leads : ∀ term, host.Leads term → later.Wins cluster.membership.IsQuorum term v)
    (seen : ∀ observation ∈ observations, observation.Honest later) :
    (world.update v host observations).Honest cluster later where
  casts w := by
    by_cases same : w = v
    · subst same
      simpa [World.update] using casts
    · simpa [World.update, same] using (honest.casts w).mono added.keeps (added.others w same)
  carries w := by
    by_cases same : w = v
    · subst same
      simpa [World.update] using carries
    · simpa [World.update, same] using honest.carries w
  leads w term := by
    by_cases same : w = v
    · subst same
      simpa [World.Leads, World.update] using leads term
    · intro led
      refine (honest.leads w term ?_).mono added.keeps
      simpa [World.Leads, World.update, same] using led
  trace := by
    intro entry member
    rcases mem_update_trace.mp member with earlier | ⟨_, now⟩
    · exact (honest.trace entry earlier).mono added.keeps
    · exact seen _ now

end World

namespace Cluster

theorem boot_carries {process : Process} (booted : cluster.boot v wal = .ok process) (carries : wal.Carries membership) :
    process.node.Carries membership := by
  obtain ⟨log, _, rfl⟩ := boot_ok booted
  exact ⟨carries wal.contents wal.survives_contents, carries⟩

theorem boot_follows {process : Process} (booted : cluster.boot v wal = .ok process) (term : ℕ) :
    ¬ (Host.up process).Leads term := by
  obtain ⟨log, _, rfl⟩ := boot_ok booted
  rintro ⟨leads, _⟩
  cases leads

theorem initial_honest (cluster : Cluster) : cluster.initial.Honest cluster fun _ _ => none where
  casts v := by
    have booted : cluster.boot v (cluster.bootstrapped v) = .ok _ := rfl
    exact boot_casts booted fun _ _ _ _ voted => nomatch voted
  carries v := by
    have booted : cluster.boot v (cluster.bootstrapped v) = .ok _ := rfl
    refine boot_carries booted fun contents survives => ?_
    rw [survives.eq_of_synced rfl]
    rfl
  leads v term leads := by
    have booted : cluster.boot v (cluster.bootstrapped v) = .ok _ := rfl
    exact absurd leads (boot_follows booted term)
  trace := by simp [initial]

variable {world after : World}

theorem act_honest {event : Event} (honest : world.Honest cluster ballots)
    (fixed : world.fixesMembership (.act v event)) (stepped : cluster.step world (.act v event) = some after) :
    ∃ later, ballots.Extends later ∧ after.Honest cluster later := by
  obtain ⟨process, up, arrives, outcome⟩ := step_act stepped
  have casts : process.node.Casts ∅ ballots v := by
    have host := honest.casts v
    rw [up] at host
    exact host
  have carries : process.node.Carries (cluster.view v) := by
    have host := honest.carries v
    rw [up] at host
    exact host
  simp only [World.fixesMembership, up] at fixed
  have keeps := Process.keepsVote_of_fixed fixed
  have serves : ∀ term ∈ process.resigns event, term ∈ (∅ : Set ℕ) := by
    rw [Process.resigns_of_fixed fixed]
    exact fun _ none => nomatch none
  have arrived : ∀ args reply fault, event = .receiveVoteReply args reply fault →
      args.candidateID = v ∧ (Message.voteReply args reply).Honest ballots := by
    rintro args reply fault rfl
    obtain ⟨own, entry, member, sent⟩ := arrives
    have observed := honest.trace entry member
    rw [sent] at observed
    exact ⟨own, observed⟩
  rcases outcome with ⟨next, observations, ran, rfl⟩ | ⟨wal, crashed, rfl⟩
  · obtain ⟨later, added, reached, seen⟩ := Process.step_casts ran casts keeps serves arrived
    refine ⟨later, added.keeps, honest.update added reached
      (Process.step_ensures ran (Process.effect_carries carries fixed)) ?_ seen⟩
    rintro term ⟨leads, rfl⟩
    obtain ⟨same, led | ⟨_, standing, enough⟩⟩ := Process.step_leads ran leads
    · refine (honest.leads v _ ?_).mono added.keeps
      rw [World.Leads, up, same]
      exact ⟨led, rfl⟩
    · rw [carries.1, (cluster.view_same v).hasQuorum_eq] at enough
      have elected : ballots.Wins cluster.membership.IsQuorum process.node.persistent.currentTerm v :=
        ⟨_, ⟨_, enough, fun _ member => member⟩, casts.votes standing⟩
      rw [same]
      exact elected.mono added.keeps
  · obtain ⟨later, added, reached⟩ := Process.step_crash_ensures crashed
      (Process.effect_casts casts keeps serves arrived)
    exact ⟨later, added.keeps, honest.update added reached
      (Process.step_crash_ensures crashed (Process.effect_carries carries fixed)) (fun _ leads => nomatch leads)
      (by simp)⟩

theorem step_honest {action : Action} (honest : world.Honest cluster ballots)
    (fixed : world.fixesMembership action) (stepped : cluster.step world action = some after) :
    ∃ later, ballots.Extends later ∧ after.Honest cluster later := by
  cases action with
  | act v event => exact act_honest honest fixed stepped
  | crash v =>
      obtain ⟨process, up, rfl⟩ := step_crash stepped
      have casts := honest.casts v
      have carries := honest.carries v
      rw [up] at casts carries
      have spares := process.node.spares_storage
      exact ⟨ballots, .refl _, honest.update (.refl _ _) (RaftNode.Casts.of_spares casts spares)
        (RaftNode.Carries.of_spares carries spares) (fun _ leads => nomatch leads) (by simp)⟩
  | restart v keep =>
      obtain ⟨wal, reopened, process, down, opened, booted, rfl⟩ := step_restart stepped
      have casts := honest.casts v
      have carries := honest.carries v
      rw [down] at casts carries
      exact ⟨ballots, .refl _, honest.update (.refl _ _) (boot_casts booted (WALStorage.Casts.reopen casts opened))
        (boot_carries booted fun contents survives => carries contents (survives.of_reopen opened))
        (fun term leads => absurd leads (boot_follows booted term)) (by simp)⟩

/-- The ballots cast up to one moment of a run are kept until any later one. -/
theorem reaches_honest {final : World}
    (reached : Reaches cluster.step (fun world action => world.fixesMembership action) world final)
    (honest : world.Honest cluster ballots) :
    ∃ later, ballots.Extends later ∧ final.Honest cluster later := by
  refine reached.invariant (fun final => ∃ later, ballots.Extends later ∧ final.Honest cluster later)
    ⟨ballots, .refl _, honest⟩ ?_
  rintro before action after ⟨middle, keeps, reachedBefore⟩ fixed stepped
  obtain ⟨later, keepsToo, reachedAfter⟩ := step_honest reachedBefore fixed stepped
  exact ⟨later, keeps.trans keepsToo, reachedAfter⟩

/-- At most one node leads in a term, at any two moments of a run, whatever messages and
storage calls fail and wherever nodes crash. -/
theorem election_safety (cluster : Cluster) {earlier later : World}
    (first : Reaches cluster.step (fun world action => world.fixesMembership action) cluster.initial earlier)
    (second : Reaches cluster.step (fun world action => world.fixesMembership action) earlier later)
    {left right : NodeID} {term : ℕ} (leadsEarlier : earlier.Leads left term)
    (leadsLater : later.Leads right term) : left = right := by
  obtain ⟨ballots, _, honest⟩ := reaches_honest first cluster.initial_honest
  obtain ⟨more, keeps, honestLater⟩ := reaches_honest second honest
  exact ((honest.leads left term leadsEarlier).mono keeps).unique
    (Membership.IsQuorum.intersects cluster.membership) (honestLater.leads right term leadsLater)

/-- `A` wins with the vote of `B`; `B` then crashes, and `C` fails to store its vote. -/
theorem election_safety_trio : ∃ (earlier later : World) (left right : NodeID),
    earlier.Leads left 1 ∧ later.Leads right 1 ∧ left = right := by
  have run : ∃ earlier later,
      Reaches trio.step (fun world action => world.fixesMembership action) trio.initial earlier ∧
        Reaches trio.step (fun world action => world.fixesMembership action) earlier later ∧
          earlier.Leads "A" 1 ∧ later.Leads "A" 1 :=
    Reaches.of_leadsTo_twice World.fixesMembership (fun _ _ fixed => fixed)
      [.act "A" (.startElection .none), .act "A" .requestVotes,
        .act "B" (.receiveRequestVote ⟨1, "A", 0, 0⟩ .none .none),
        .act "A" (.receiveVoteReply ⟨1, "A", 0, 0⟩ ⟨1, "B", true⟩ .none), .act "A" .tryBecomeLeader]
      [.crash "B", .act "C" (.receiveRequestVote ⟨1, "A", 0, 0⟩ .none .syncFails), .restart "B" 0]
      (by decide +kernel)
  obtain ⟨earlier, later, first, second, leads, leadsToo⟩ := run
  exact ⟨earlier, later, "A", "A", leads, leadsToo, election_safety trio first second leads leadsToo⟩

end Cluster

end Raftiq
