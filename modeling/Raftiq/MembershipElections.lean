import Raftiq.ElectionSafety
import Raftiq.Raft.MemberCall

namespace Raftiq

open Consensus

/-- Nodes that start with memberships of their own: one that is to join has no voters. -/
structure Deployment where
  stored : NodeID → Membership
  peerIDs : NodeID → List NodeID
  canRestore : NodeID → Bool

/-- A node has stood in a term and counted votes with a membership. -/
structure Candidacy where
  term : ℕ
  node : NodeID
  membership : Membership
deriving DecidableEq

/-- A cluster in which one `AddMember` or `RemoveMember` call is in progress at a time.  It also
knows who has stood, and which leaders have applied their own removal. -/
structure MemberWorld where
  world : World
  call : Option (NodeID × MemberCall)
  candidacies : List Candidacy
  resigned : List (NodeID × ℕ)

inductive ClusterAction where
  | take (action : Action)
  | begin (v : NodeID) (change : MemberChange) (peerID : NodeID)
  | resume (fault : Fault)
  | expire
deriving DecidableEq

def Action.node : Action → NodeID
  | .act v _ | .crash v | .restart v _ => v

def MemberProgress.pending (v : NodeID) : MemberProgress → Option (NodeID × MemberCall)
  | .waiting call => some (v, call)
  | .returned _ => none

namespace World

def candidacy (world : World) (v : NodeID) : Option Candidacy :=
  match world.host v with
  | .up process =>
      if process.node.role = .candidate then
        some ⟨process.node.persistent.currentTerm, v, process.node.persistent.membership⟩
      else none
  | .down _ => none

/-- The term that the acting leader resigns from. -/
def resigns (world : World) : Action → Option (NodeID × ℕ)
  | .act v event =>
      match world.host v with
      | .up process => (process.resigns event).map (v, ·)
      | .down _ => none
  | .crash _ | .restart _ _ => none

end World

/-- What an action leads to; a call ends with the process it runs in. -/
def MemberWorld.move (state : MemberWorld) (action : Action) (world : World) : MemberWorld where
  world := world
  call := state.call.filter fun (v, _) => (world.host v).process.isSome
  candidacies := (world.candidacy action.node).toList ++ state.candidacies
  resigned := (state.world.resigns action).toList ++ state.resigned

namespace Deployment

variable (deployment : Deployment)

/-- How nodes run and start again does not depend on what they have stored at first. -/
def cluster : Cluster where
  membership := { current := { voters := [] }, joint := none }
  view _ := { current := { voters := [] }, joint := none }
  view_same _ := .refl _
  peerIDs := deployment.peerIDs
  canRestore := deployment.canRestore

def storage (v : NodeID) : WALStorage :=
  (WALStorage.openEmpty.appendRecord
    (.state { currentTerm := 0, votedFor := "", membership := deployment.stored v })).sync

def initial : MemberWorld where
  world := {
    host v :=
      match deployment.cluster.boot v (deployment.storage v) with
      | .error _ => .down (deployment.storage v)
      | .ok process => .up process
    trace := [] }
  call := none
  candidacies := []
  resigned := []

def step (state : MemberWorld) : ClusterAction → Option MemberWorld
  | .take action =>
      match deployment.cluster.step state.world action with
      | none => none
      | some world => some (state.move action world)
  | .begin v change peerID =>
      match state.call, state.world.host v with
      | none, .up process =>
          let (node, progress) := process.node.beginMember change peerID
          some { state with
            world := state.world.update v (.up (process.withNode node)) []
            call := progress.pending v }
      | _, _ => none
  | .resume fault =>
      match state.call with
      | none => none
      | some (v, call) =>
          match state.world.host v with
          | .down _ => none
          | .up process =>
              match process.node.resumeMember call fault with
              | .crashed wal => some { state with world := state.world.update v (.down wal) [], call := none }
              | .done node progress =>
                  some { state with
                    world := state.world.update v (.up (process.withNode node)) []
                    call := progress.pending v }
  | .expire =>
      match state.call with
      | none => none
      | some (_, call) => if call.stage.waits then some { state with call := none } else none

end Deployment

namespace MemberWorld

/-- The terms in which a node has, as their leader, applied its own removal. -/
def resignedBy (state : MemberWorld) (v : NodeID) : Set ℕ :=
  {term | (v, term) ∈ state.resigned}

/-- No node reads, and none is asked for its vote in a term that it has resigned from. -/
def VotesOnce (state : MemberWorld) : ClusterAction → Prop
  | .take (.act v event) => Process.keepsVote (state.resignedBy v) event
  | _ => True

/-- A candidate decides on its election with a membership whose quorums meet those with which
others have stood in its term. -/
def Overlapping (state : MemberWorld) : ClusterAction → Prop
  | .take (.act v .tryBecomeLeader) =>
      ∀ own ∈ state.world.candidacy v, ∀ other ∈ state.candidacies, other.term = own.term → other.node ≠ v →
        own.membership.Overlaps other.membership
  | _ => True

end MemberWorld

variable {deployment : Deployment} {ballots later : Ballots NodeID} {v : NodeID} {resigned : Set ℕ}

theorem World.candidacy_up {world : World} {process : Process} (up : world.host v = .up process)
    {own : Candidacy} (standing : own ∈ world.candidacy v) :
    process.node.role = .candidate ∧
      own = ⟨process.node.persistent.currentTerm, v, process.node.persistent.membership⟩ := by
  simp only [candidacy, up, Option.mem_def] at standing
  split at standing
  · rename_i candidate
    exact ⟨candidate, (Option.some.inj standing).symm⟩
  · cases standing

theorem World.candidacy_other {world : World} {host : Host} {observations : List Observation} {w : NodeID}
    (other : w ≠ v) : (world.update v host observations).candidacy w = world.candidacy w := by
  simp [candidacy, update, other]

namespace MemberWorld

/-- What holds of the ballots, and of the candidates that have won, throughout a run. -/
structure Sound (ballots : Ballots NodeID) (won : Set Candidacy) (state : MemberWorld) : Prop where
  host : ∀ v, (state.world.host v).Casts (state.resignedBy v) ballots v
  trace : ∀ entry ∈ state.world.trace, entry.2.Honest ballots
  standing : ∀ v, ∀ own ∈ state.world.candidacy v, own ∈ state.candidacies
  leading : ∀ v term, state.world.Leads v term → ∃ winner ∈ won, winner.term = term ∧ winner.node = v
  stood : ∀ winner ∈ won, winner ∈ state.candidacies
  wins : ∀ winner ∈ won, ballots.Wins winner.membership.IsQuorum winner.term winner.node
  unique : ∀ winner ∈ won, ∀ other ∈ won, winner.term = other.term → winner.node = other.node

variable {state after : MemberWorld} {won : Set Candidacy} {process : Process}

theorem Sound.running (sound : state.Sound ballots won) (up : state.world.host v = .up process) :
    process.node.Casts (state.resignedBy v) ballots v := by
  have casts := sound.host v
  rw [up] at casts
  exact casts

/-- A candidate with a quorum of votes has won alone, if its quorums meet those of the others. -/
theorem Sound.elect (sound : state.Sound ballots won) (up : state.world.host v = .up process)
    (candidate : process.node.role = .candidate)
    (enough : membershipHasQuorum process.node.persistent.membership process.node.votesReceived)
    (overlapping : state.Overlapping (.take (.act v .tryBecomeLeader))) :
    state.Sound ballots
      (insert ⟨process.node.persistent.currentTerm, v, process.node.persistent.membership⟩ won) := by
  have own : (⟨process.node.persistent.currentTerm, v, process.node.persistent.membership⟩ : Candidacy) ∈
      state.world.candidacy v := by
    simp [World.candidacy, up, candidate]
  have elected : ballots.Wins process.node.persistent.membership.IsQuorum
      process.node.persistent.currentTerm v :=
    ⟨_, ⟨_, enough, fun _ member => member⟩, (sound.running up).votes candidate⟩
  have alone : ∀ other ∈ won, other.term = process.node.persistent.currentTerm → other.node = v := by
    intro other member same
    by_contra different
    have overlaps := overlapping _ own other (sound.stood other member) same different
    exact different (elected.unique overlaps.intersects (same ▸ sound.wins other member)).symm
  refine { sound with leading := ?_, stood := ?_, wins := ?_, unique := ?_ }
  · intro w term leads
    obtain ⟨winner, member, found⟩ := sound.leading w term leads
    exact ⟨winner, Set.mem_insert_of_mem _ member, found⟩
  · rintro winner (rfl | member)
    · exact sound.standing v _ own
    · exact sound.stood winner member
  · rintro winner (rfl | member)
    · exact elected
    · exact sound.wins winner member
  · rintro winner (rfl | member) other (rfl | memberToo) same
    · rfl
    · exact (alone other memberToo same.symm).symm
    · exact alone winner member same
    · exact sound.unique winner member other memberToo same

/-- One host changes. -/
theorem Sound.update {host : Host} {observations : List Observation} (sound : state.Sound ballots won)
    (added : Ballots.AddedBy v ballots later) (world : after.world = state.world.update v host observations)
    (noted : state.candidacies ⊆ after.candidacies)
    (left : ∀ w, w ≠ v → after.resignedBy w = state.resignedBy w)
    (own : host.Casts (after.resignedBy v) later v) (seen : ∀ observation ∈ observations, observation.Honest later)
    (stands : ∀ own ∈ after.world.candidacy v, own ∈ after.candidacies)
    (leads : ∀ term, host.Leads term → ∃ winner ∈ won, winner.term = term ∧ winner.node = v) :
    after.Sound later won where
  host w := by
    rw [world]
    by_cases same : w = v
    · subst same
      simpa [World.update] using own
    · rw [left w same]
      simpa [World.update, same] using (sound.host w).mono added.keeps (added.others w same)
  trace := by
    intro entry member
    rw [world] at member
    rcases World.mem_update_trace.mp member with earlier | ⟨_, now⟩
    · exact (sound.trace entry earlier).mono added.keeps
    · exact seen _ now
  standing w := by
    by_cases same : w = v
    · subst same
      exact stands
    · rw [world, World.candidacy_other same]
      exact fun own member => noted (sound.standing w own member)
  leading w term := by
    rw [world]
    by_cases same : w = v
    · subst same
      simpa [World.Leads, World.update] using leads term
    · simpa [World.Leads, World.update, same] using sound.leading w term
  stood winner member := noted (sound.stood winner member)
  wins winner member := (sound.wins winner member).mono added.keeps
  unique := sound.unique

/-- A leader after a step has won before it, or wins in it. -/
theorem Sound.lead {event : Event} {next : Process} {observations : List Observation}
    (sound : state.Sound ballots won) (up : state.world.host v = .up process)
    (overlapping : state.Overlapping (.take (.act v event)))
    (stepped : process.step event = some (.running next observations)) :
    ∃ more, won ⊆ more ∧ state.Sound ballots more ∧
      ∀ term, (Host.up next).Leads term → ∃ winner ∈ more, winner.term = term ∧ winner.node = v := by
  by_cases leads : next.node.role = .leader
  · obtain ⟨same, led | ⟨rfl, standing, enough⟩⟩ := Process.step_leads stepped leads
    · refine ⟨won, subset_rfl, sound, ?_⟩
      rintro term ⟨_, rfl⟩
      refine sound.leading v _ ?_
      rw [World.Leads, up, same]
      exact ⟨led, rfl⟩
    · refine ⟨_, Set.subset_insert _ _, sound.elect up standing enough overlapping, ?_⟩
      rintro term ⟨_, rfl⟩
      exact ⟨_, Set.mem_insert _ _, same.symm, rfl⟩
  · exact ⟨won, subset_rfl, sound, fun _ now => absurd now.1 leads⟩

end MemberWorld

namespace Deployment

variable {state after : MemberWorld} {won : Set Candidacy} {process : Process}

theorem step_take {action : Action} (stepped : deployment.step state (.take action) = some after) :
    ∃ world, deployment.cluster.step state.world action = some world ∧ after = state.move action world := by
  simp only [step] at stepped
  split at stepped
  · cases stepped
  · rename_i world moved
    exact ⟨world, moved, (Option.some.inj stepped).symm⟩

/-- What is noted of an action concerns the acting node. -/
theorem resignedBy_move {action : Action} {w : NodeID} (world : World) (other : w ≠ action.node) :
    (state.move action world).resignedBy w = state.resignedBy w := by
  ext term
  refine ⟨fun member => ?_, fun member => List.mem_append_right _ member⟩
  rcases List.mem_append.mp member with now | earlier
  · cases action with
    | crash v => cases now
    | restart v keep => cases now
    | act v event =>
        simp only [World.resigns] at now
        split at now
        · obtain ⟨_, _, same⟩ := Option.map_eq_some_iff.mp (Option.mem_toList.mp now)
          exact absurd (congrArg Prod.fst same).symm other
        · cases now
  · exact earlier

theorem act_sound {event : Event} (sound : state.Sound ballots won)
    (once : state.VotesOnce (.take (.act v event))) (overlapping : state.Overlapping (.take (.act v event)))
    (stepped : deployment.step state (.take (.act v event)) = some after) :
    ∃ later more, won ⊆ more ∧ after.Sound later more := by
  obtain ⟨world, moved, rfl⟩ := step_take stepped
  obtain ⟨process, up, arrives, outcome⟩ := Cluster.step_act moved
  have noted : state.world.resigns (.act v event) = (process.resigns event).map (v, ·) := by
    simp [World.resigns, up]
  have casts : process.node.Casts ((state.move (.act v event) world).resignedBy v) ballots v :=
    (sound.running up).mono fun term member => List.mem_append_right _ member
  have leaves : ∀ term ∈ process.resigns event, term ∈ (state.move (.act v event) world).resignedBy v := by
    intro term member
    refine List.mem_append_left _ (Option.mem_toList.mpr ?_)
    rw [noted]
    exact Option.mem_map_of_mem _ member
  have keeps : Process.keepsVote ((state.move (.act v event) world).resignedBy v) event := by
    cases event with
    | receiveRequestVote args termFault voteFault =>
        refine fun member => once ?_
        simpa [MemberWorld.resignedBy, MemberWorld.move, noted, Process.resigns] using member
    | _ => exact once
  have arrived : ∀ args reply fault, event = .receiveVoteReply args reply fault →
      args.candidateID = v ∧ (Message.voteReply args reply).Honest ballots := by
    rintro args reply fault rfl
    obtain ⟨own, entry, member, sent⟩ := arrives
    have observed := sound.trace entry member
    rw [sent] at observed
    exact ⟨own, observed⟩
  rcases outcome with ⟨next, observations, ran, rfl⟩ | ⟨wal, crashed, rfl⟩
  · obtain ⟨later, added, reached, seen⟩ := Process.step_casts ran casts keeps leaves arrived
    obtain ⟨more, grows, known, leads⟩ := sound.lead up overlapping ran
    refine ⟨later, more, grows, known.update added rfl (List.subset_append_right _ _)
      (fun w other => resignedBy_move _ other) reached seen ?_ leads⟩
    exact fun own member => List.mem_append_left _ (Option.mem_toList.mpr member)
  · obtain ⟨later, added, reached⟩ := Process.step_crash_ensures crashed
      (Process.effect_casts casts keeps leaves arrived)
    refine ⟨later, won, subset_rfl, sound.update added rfl (List.subset_append_right _ _)
      (fun w other => resignedBy_move _ other) reached (by simp) ?_ fun _ leads => by cases leads⟩
    exact fun own member => List.mem_append_left _ (Option.mem_toList.mpr member)

theorem crash_sound (sound : state.Sound ballots won)
    (stepped : deployment.step state (.take (.crash v)) = some after) : after.Sound ballots won := by
  obtain ⟨world, moved, rfl⟩ := step_take stepped
  obtain ⟨process, up, rfl⟩ := Cluster.step_crash moved
  refine sound.update (.refl v ballots) rfl (List.subset_append_right _ _)
    (fun w other => resignedBy_move _ other) ((sound.running up).of_spares process.node.spares_storage) (by simp) ?_
    fun _ leads => nomatch leads
  exact fun own member => List.mem_append_left _ (Option.mem_toList.mpr member)

theorem restart_sound {keep : ℕ} (sound : state.Sound ballots won)
    (stepped : deployment.step state (.take (.restart v keep)) = some after) : after.Sound ballots won := by
  obtain ⟨world, moved, rfl⟩ := step_take stepped
  obtain ⟨wal, reopened, process, down, opened, booted, rfl⟩ := Cluster.step_restart moved
  have stored := sound.host v
  rw [down] at stored
  refine sound.update (.refl v ballots) rfl (List.subset_append_right _ _) (fun w other => resignedBy_move _ other)
    (Cluster.boot_casts booted (WALStorage.Casts.reopen stored opened)) (by simp) ?_
    fun term leads => absurd leads (Cluster.boot_follows booted term)
  exact fun own member => List.mem_append_left _ (Option.mem_toList.mpr member)

/-- A section of a call leaves the ballot alone. -/
theorem keep_sound {node : RaftNode} {call : Option (NodeID × MemberCall)} (sound : state.Sound ballots won)
    (up : state.world.host v = .up process) (kept : process.node.KeepsBallot node) :
    ({ state with world := state.world.update v (.up (process.withNode node)) [], call := call } :
      MemberWorld).Sound ballots won := by
  refine sound.update (.refl v ballots) rfl (List.Subset.refl _) (fun _ _ => rfl) ((sound.running up).of_keep kept)
    (by simp) ?_ ?_
  · intro own member
    obtain ⟨candidate, rfl⟩ := World.candidacy_up (World.update_host_self _ _ _ _) member
    refine sound.standing v _ ?_
    rcases kept.role with follower | ⟨role, _⟩
    · cases follower.symm.trans candidate
    · have standing : process.node.role = .candidate := role ▸ candidate
      simp [World.candidacy, up, standing, Process.withNode, kept.persistent]
  · rintro term ⟨leads, rfl⟩
    refine sound.leading v _ ?_
    rw [World.Leads, up]
    rcases kept.role with follower | ⟨role, _⟩
    · cases follower.symm.trans leads
    · exact ⟨role ▸ leads, congrArg PersistentState.currentTerm kept.persistent.symm⟩

end Deployment

namespace RaftNode

theorem beginMember_keeps (node : RaftNode) (change : MemberChange) (peerID : NodeID) :
    node.KeepsBallot (node.beginMember change peerID).1 := by
  unfold beginMember
  split
  · exact .refl node
  · cases change with
    | add =>
        dsimp only
        split
        · exact .refl node
        · exact ⟨rfl, rfl, Or.inr ⟨rfl, rfl⟩, node.spares_storage⟩
    | remove =>
        dsimp only
        split
        · exact .refl node
        · exact .refl node

theorem proposeEntry_keeps (node : RaftNode) (call : MemberCall) (encoded : Except ConfigEntryError Bytes)
    (fault : Fault) (encodeFailed : ConfigEntryError → MemberError) (proposeFailed : ProposeError → MemberError)
    (next : ℕ → MemberStage) :
    (node.proposeEntry call encoded fault encodeFailed proposeFailed next).Ensures
      (fun after _ => node.KeepsBallot after) node.Spares := by
  cases encoded with
  | error error => exact .refl node
  | ok data =>
      refine (node.propose_ensures data fault).andThen fun after result kept => ?_
      cases result with
      | error error => exact kept
      | ok index => exact kept

theorem resumeMember_keeps (node : RaftNode) (call : MemberCall) (fault : Fault) :
    (node.resumeMember call fault).Ensures (fun after _ => node.KeepsBallot after) node.Spares := by
  unfold resumeMember
  cases call.stage with
  | enterJoint => exact node.proposeEntry_keeps call _ fault _ _ _
  | leaveJoint => exact node.proposeEntry_keeps call _ fault _ _ _
  | _ => exact .refl node

theorem beginMember_applied (node : RaftNode) (change : MemberChange) (peerID : NodeID) :
    (node.beginMember change peerID).1.lastApplied = node.lastApplied := by
  unfold beginMember
  split
  · rfl
  · cases change with
    | add =>
        dsimp only
        split
        · rfl
        · rfl
    | remove =>
        dsimp only
        split
        · rfl
        · rfl

theorem resumeMember_applied (node : RaftNode) (call : MemberCall) (fault : Fault) :
    (node.resumeMember call fault).Ensures (fun after _ => after.lastApplied = node.lastApplied)
      fun _ => True := by
  have proposed : ∀ encoded encodeFailed proposeFailed next,
      (node.proposeEntry call encoded fault encodeFailed proposeFailed next).Ensures
        (fun after _ => after.lastApplied = node.lastApplied) fun _ => True := by
    intro encoded encodeFailed proposeFailed next
    cases encoded with
    | error error => exact rfl
    | ok data =>
        refine (node.propose_applies fault data).andThen fun after result kept => ?_
        cases result with
        | error error => exact kept.1
        | ok index => exact kept.1
  unfold resumeMember
  cases call.stage with
  | enterJoint => exact proposed _ _ _ _
  | leaveJoint => exact proposed _ _ _ _
  | _ => exact rfl

end RaftNode

namespace Deployment

variable {state after : MemberWorld} {won : Set Candidacy}

/-- A section of a call changes one node at most: neither its ballot nor what it has applied. -/
theorem step_call {action : ClusterAction} (call : ∀ taken, action ≠ .take taken)
    (stepped : deployment.step state action = some after) :
    ∃ call, after = { state with call := call } ∨ ∃ v process, state.world.host v = .up process ∧
      ((∃ node, process.node.KeepsBallot node ∧ node.lastApplied = process.node.lastApplied ∧
          after = { state with world := state.world.update v (.up (process.withNode node)) [], call := call }) ∨
        ∃ wal, process.node.Spares wal ∧
          after = { state with world := state.world.update v (.down wal) [], call := call }) := by
  cases action with
  | take taken => exact absurd rfl (call taken)
  | begin v change peerID =>
      simp only [step] at stepped
      split at stepped
      · rename_i process _ up
        cases stepped
        exact ⟨_, Or.inr ⟨v, process, up, Or.inl ⟨_, process.node.beginMember_keeps change peerID,
          process.node.beginMember_applied change peerID, rfl⟩⟩⟩
      · cases stepped
  | resume fault =>
      simp only [step] at stepped
      split at stepped
      · cases stepped
      · rename_i v call _
        split at stepped
        · cases stepped
        · rename_i process up
          have kept := process.node.resumeMember_keeps call fault
          have applied := process.node.resumeMember_applied call fault
          split at stepped
          · rename_i wal crashed
            rw [crashed] at kept
            cases stepped
            exact ⟨_, Or.inr ⟨v, process, up, Or.inr ⟨wal, kept, rfl⟩⟩⟩
          · rename_i node progress done
            rw [done] at kept applied
            cases stepped
            exact ⟨_, Or.inr ⟨v, process, up, Or.inl ⟨node, kept, applied, rfl⟩⟩⟩
  | expire =>
      simp only [step] at stepped
      split at stepped
      · cases stepped
      · split at stepped
        · cases stepped
          exact ⟨_, Or.inl rfl⟩
        · cases stepped

theorem call_sound {action : ClusterAction} (call : ∀ taken, action ≠ .take taken)
    (sound : state.Sound ballots won) (stepped : deployment.step state action = some after) :
    after.Sound ballots won := by
  obtain ⟨_, rfl | ⟨v, process, up, ⟨node, kept, _, rfl⟩ | ⟨wal, kept, rfl⟩⟩⟩ := step_call call stepped
  · exact { sound with }
  · exact keep_sound sound up kept
  · refine sound.update (.refl v ballots) rfl (List.Subset.refl _) (fun _ _ => rfl)
      ((sound.running up).of_spares kept) (by simp) ?_ fun _ leads => nomatch leads
    simp [World.candidacy, World.update]

theorem step_sound {action : ClusterAction} (sound : state.Sound ballots won) (once : state.VotesOnce action)
    (overlapping : state.Overlapping action) (stepped : deployment.step state action = some after) :
    ∃ later more, won ⊆ more ∧ after.Sound later more := by
  cases action with
  | take action =>
      cases action with
      | act v event => exact act_sound sound once overlapping stepped
      | crash v => exact ⟨ballots, won, subset_rfl, crash_sound sound stepped⟩
      | restart v keep => exact ⟨ballots, won, subset_rfl, restart_sound sound stepped⟩
  | begin _ _ _ | resume _ | expire => exact ⟨ballots, won, subset_rfl, call_sound (by simp) sound stepped⟩

/-- How a node that is up after a step has come there: nothing has happened to it, it has taken part in
the step, it has started again, or a call has gone on. -/
theorem step_host {action : ClusterAction} {process : Process}
    (stepped : deployment.step state action = some after) (up : after.world.host v = .up process) :
    state.world.host v = .up process ∨
      (∃ before event observations, state.world.host v = .up before ∧ action = .take (.act v event) ∧
        before.step event = some (.running process observations)) ∨
      (∃ wal reopened keep, state.world.host v = .down wal ∧ action = .take (.restart v keep) ∧
        wal.reopen keep = .ok reopened ∧ deployment.cluster.boot v reopened = .ok process) ∨
      ∃ before node, state.world.host v = .up before ∧ before.node.KeepsBallot node ∧
        node.lastApplied = before.node.lastApplied ∧ process = before.withNode node := by
  cases action with
  | take action =>
      obtain ⟨world, moved, rfl⟩ := step_take stepped
      rcases Cluster.step_host moved up with same | ⟨before, event, observations, running, rfl, _, ran⟩ |
        ⟨wal, reopened, keep, down, rfl, opened, booted⟩
      · exact Or.inl same
      · exact Or.inr (Or.inl ⟨before, event, observations, running, rfl, ran⟩)
      · exact Or.inr (Or.inr (Or.inl ⟨wal, reopened, keep, down, rfl, opened, booted⟩))
  | begin _ _ _ | resume _ | expire =>
      obtain ⟨_, rfl | ⟨w, before, running, ⟨node, kept, applied, rfl⟩ | ⟨wal, _, rfl⟩⟩⟩ :=
        step_call (by simp) stepped
      · exact Or.inl up
      · by_cases same : v = w
        · subst same
          rw [World.update_host_self] at up
          cases up
          exact Or.inr (Or.inr (Or.inr ⟨before, node, running, kept, applied, rfl⟩))
        · exact Or.inl (by simpa [World.update, same] using up)
      · by_cases same : v = w
        · subst same
          rw [World.update_host_self] at up
          cases up
        · exact Or.inl (by simpa [World.update, same] using up)

theorem initial_sound (deployment : Deployment) : deployment.initial.Sound (fun _ _ => none) ∅ where
  host v := by
    have booted : deployment.cluster.boot v (deployment.storage v) = .ok _ := rfl
    exact Cluster.boot_casts booted fun _ _ _ _ voted => nomatch voted
  trace := fun _ none => nomatch none
  standing := fun _ _ standing => nomatch standing
  leading := fun _ _ leads => nomatch leads.1
  stood := fun _ none => none.elim
  wins := fun _ none => none.elim
  unique := fun _ none => none.elim

theorem reaches_sound {final : MemberWorld}
    (reached : Reaches deployment.step
      (fun state action => state.VotesOnce action ∧ state.Overlapping action) state final)
    (sound : state.Sound ballots won) : ∃ later more, won ⊆ more ∧ final.Sound later more := by
  refine reached.invariant (fun final : MemberWorld => ∃ later more, won ⊆ more ∧ final.Sound later more)
    ⟨ballots, won, subset_rfl, sound⟩ ?_
  rintro before action after ⟨middle, some, grown, known⟩ ⟨once, overlapping⟩ stepped
  obtain ⟨later, more, grows, reachedAfter⟩ := step_sound known once overlapping stepped
  exact ⟨later, more, grown.trans grows, reachedAfter⟩

/-- Whatever membership changes are made, at most one node leads in a term, at any two moments of a
run in which no candidate decides on its election with a membership too far from another's. -/
theorem election_safety_changing {earlier later : MemberWorld}
    (first : Reaches deployment.step
      (fun state action => state.VotesOnce action ∧ state.Overlapping action) deployment.initial earlier)
    (second : Reaches deployment.step
      (fun state action => state.VotesOnce action ∧ state.Overlapping action) earlier later)
    {left right : NodeID} {term : ℕ} (leadsEarlier : earlier.world.Leads left term)
    (leadsLater : later.world.Leads right term) : left = right := by
  obtain ⟨ballots, won, _, sound⟩ := reaches_sound first deployment.initial_sound
  obtain ⟨_, more, grows, soundLater⟩ := reaches_sound second sound
  obtain ⟨winner, member, now, rfl⟩ := sound.leading left term leadsEarlier
  obtain ⟨other, memberToo, nowToo, rfl⟩ := soundLater.leading right term leadsLater
  exact soundLater.unique winner (grows member) other memberToo (now.trans nowToo.symm)

/-- A sufficient condition that can be evaluated: candidates of one term have one membership. -/
def checks (state : MemberWorld) : ClusterAction → Bool
  | .take (.act v event) =>
      ! event.reads &&
        match event with
        | .receiveRequestVote args _ _ => decide ((v, args.term) ∉ state.resigned)
        | .tryBecomeLeader =>
            decide (∀ own ∈ state.world.candidacy v, ∀ other ∈ state.candidacies, other.term = own.term →
              other.node ≠ v → other.membership = own.membership)
        | _ => true
  | _ => true

theorem checks_sound (state : MemberWorld) (action : ClusterAction) (checked : checks state action) :
    state.VotesOnce action ∧ state.Overlapping action := by
  cases action with
  | take action =>
      cases action with
      | act v event =>
          cases event with
          | receiveRequestVote args termFault voteFault =>
              have serving : (v, args.term) ∉ state.resigned := by
                simpa [checks, Event.reads] using checked
              exact ⟨serving, trivial⟩
          | tryBecomeLeader =>
              refine ⟨trivial, fun own standing other member same different => ?_⟩
              simp only [checks, Event.reads, Bool.not_false, Bool.true_and, decide_eq_true_eq] at checked
              rw [checked own standing other member same different]
              exact .refl _
          | beginRead | probeRead | receiveProbeResult | cancelRead => simp [checks, Event.reads] at checked
          | _ => exact ⟨trivial, trivial⟩
      | _ => exact ⟨trivial, trivial⟩
  | _ => exact ⟨trivial, trivial⟩

/-- Five nodes, of which the voters know each other and the others are to join. -/
def five (voters : List NodeID) : Deployment where
  stored v := { current := { voters := if v ∈ voters then voters else [] }, joint := none }
  peerIDs v := ["A", "B", "C", "D", "E"].erase v
  canRestore _ := true

/-- A node stands after an entry of term 1, or in term 1, and asks the voters one by one. -/
def stands (candidate : NodeID) (term lastIndex : ℕ) (voters : List NodeID) : List ClusterAction :=
  let args : RequestVoteArgs := ⟨term, candidate, lastIndex, if lastIndex = 0 then 0 else 1⟩
  [.take (.act candidate (.startElection .none)), .take (.act candidate .requestVotes)] ++
    voters.flatMap fun voter => [.take (.act voter (.receiveRequestVote args .none .none)),
      .take (.act candidate (.receiveVoteReply args ⟨term, voter, true⟩ .none))]

/-- `A` sends the entries between two indexes of its log, and the peer acknowledges them. -/
def ships (log : List Bytes) (peer : NodeID) (previous last commit : ℕ) : List ClusterAction :=
  let entries := log.zipIdx.map fun (data, position) => ⟨position + 1, 1, data⟩
  let args : AppendEntriesArgs :=
    ⟨1, "A", previous, if previous = 0 then 0 else 1, (entries.take last).drop previous, commit⟩
  [.take (.act "A" (.replicateTo peer)), .take (.act peer (.receiveAppendEntries args .replication .none .none)),
    .take (.act "A" (.receiveAppendReply peer args ⟨1, peer, true⟩ .none))]

def applies (v : NodeID) (count : ℕ) : List ClusterAction :=
  List.replicate count (.take (.act v (.pickCommitted .none .none)))

def goesOn (sections : ℕ) : List ClusterAction :=
  List.replicate sections (.resume .none)

/-- The log of `A` when it adds `D`, and then `E`. -/
def additions : List Bytes :=
  jointData [(["A", "B", "C"], ["A", "B", "C", "D"]), (["A", "B", "C", "D"], ["A", "B", "C", "D", "E"])]

/-- `AddMember` of `D` on `A`: `B` and `D` take the entries. -/
def addsD : List ClusterAction :=
  [.begin "A" .add "D"] ++ goesOn 3 ++ ships additions "B" 0 1 0 ++ applies "A" 1 ++ goesOn 2 ++
    ships additions "D" 0 1 1 ++ goesOn 2 ++ ships additions "B" 1 2 1 ++ ships additions "D" 1 2 1 ++
    applies "A" 1 ++ goesOn 2

/-- `AddMember` of `E` on `A` after that. -/
def addsE : List ClusterAction :=
  [.begin "A" .add "E"] ++ goesOn 1 ++ ships additions "E" 0 2 2 ++ goesOn 2 ++ ships additions "B" 2 3 2 ++
    ships additions "D" 2 3 2 ++ applies "A" 1 ++ goesOn 2 ++ ships additions "E" 2 3 3 ++ goesOn 2 ++
    ships additions "B" 3 4 3 ++ ships additions "D" 3 4 3 ++ applies "A" 1 ++ goesOn 2

/-- The log of `A` when it removes `B`. -/
def removal : List Bytes :=
  jointData [(["A", "B", "C", "D", "E"], ["A", "C", "D", "E"])]

/-- `RemoveMember` of `B` on `A`: all nodes take the entries, and `B` learns that they are committed. -/
def removesB : List ClusterAction :=
  [.begin "A" .remove "B"] ++ goesOn 1 ++ ships removal "C" 0 1 0 ++ ships removal "D" 0 1 0 ++ applies "A" 1 ++
    goesOn 2 ++ ships removal "C" 1 2 1 ++ ships removal "D" 1 2 1 ++ applies "A" 1 ++ goesOn 2 ++
    ships removal "B" 0 2 2 ++ ships removal "E" 0 2 2

/-- `D` is added, everybody applies that, `B` stands in vain, and `D` is elected in the same term. -/
theorem joined_node_leads : ∃ (earlier later : MemberWorld) (left right : NodeID),
    earlier.world.Leads left 2 ∧ later.world.Leads right 2 ∧ left = right := by
  let trio := five ["A", "B", "C"]
  have run : ∃ earlier later,
      Reaches trio.step (fun state action => state.VotesOnce action ∧ state.Overlapping action)
        trio.initial earlier ∧
        Reaches trio.step (fun state action => state.VotesOnce action ∧ state.Overlapping action)
          earlier later ∧ earlier.world.Leads "D" 2 ∧ later.world.Leads "D" 2 :=
    Reaches.of_leadsTo_twice checks checks_sound
      (stands "A" 1 0 ["B"] ++ [.take (.act "A" .tryBecomeLeader)] ++ addsD ++ ships additions "B" 2 2 2 ++
        ships additions "C" 0 2 2 ++ ships additions "D" 2 2 2 ++ applies "B" 2 ++ applies "C" 2 ++
        applies "D" 2 ++ stands "B" 2 2 [] ++ stands "D" 2 2 ["A", "C"] ++ [.take (.act "D" .tryBecomeLeader)])
      [.take (.crash "B"), .take (.restart "B" 0), .take (.act "B" (.startElection .none))]
      (by decide +kernel)
  obtain ⟨earlier, later, first, second, leads, leadsToo⟩ := run
  exact ⟨earlier, later, "D", "D", leads, leadsToo, election_safety_changing first second leads leadsToo⟩

/-- Calls and node events without snapshots, reads, storage errors or configurations that are
proposed otherwise. -/
def changesInTurn : ClusterAction → Bool
  | .take action => action.replicates
  | .resume fault => decide (fault = .none ∨ fault = .crash)
  | .begin _ _ _ | .expire => true

/-- `D` and `E` are added one after the other.  `B` has the entries but has applied none of them and
wins with `C`; `D`, which has applied all of them, wins the same term with `A` and `E`.

Or: `B` is removed, learns that, and is elected by nodes that have not applied it.  It applies its own
removal, forgets its vote and helps `E` to win the same term. -/
theorem two_leaders_in_one_term :
    (∃ final : MemberWorld, Reaches (five ["A", "B", "C"]).step (fun _ action => changesInTurn action)
        (five ["A", "B", "C"]).initial final ∧
      final.call = none ∧ final.world.Leads "B" 2 ∧ final.world.Leads "D" 2) ∧
    ∃ earlier later : MemberWorld,
      Reaches (five ["A", "B", "C", "D", "E"]).step (fun _ action => changesInTurn action)
        (five ["A", "B", "C", "D", "E"]).initial earlier ∧
      Reaches (five ["A", "B", "C", "D", "E"]).step (fun _ action => changesInTurn action) earlier later ∧
      earlier.world.Leads "B" 2 ∧ later.world.Leads "E" 2 := by
  constructor
  · exact Reaches.of_leadsTo (fun _ action => changesInTurn action) (fun _ _ admitted => admitted)
      (stands "A" 1 0 ["B"] ++ [.take (.act "A" .tryBecomeLeader)] ++ addsD ++ addsE ++
        ships additions "D" 4 4 4 ++ applies "D" 4 ++ applies "E" 1 ++ stands "B" 2 4 ["C"] ++
        [.take (.act "B" .tryBecomeLeader)] ++ stands "D" 2 4 ["A", "E"] ++ [.take (.act "D" .tryBecomeLeader)])
      (by decide +kernel)
  · exact Reaches.of_leadsTo_twice (fun _ action => changesInTurn action) (fun _ _ admitted => admitted)
      (stands "A" 1 0 ["B", "C"] ++ [.take (.act "A" .tryBecomeLeader)] ++ removesB ++
        stands "B" 2 2 ["C", "D"] ++ [.take (.act "B" .tryBecomeLeader)])
      (applies "B" 2 ++ stands "E" 2 2 ["A", "B"] ++ [.take (.act "E" .tryBecomeLeader)])
      (by decide +kernel)

end Deployment

end Raftiq
