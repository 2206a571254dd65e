import Raftiq.Consensus.Ballots
import Raftiq.Raft.Reign

namespace Raftiq

open Consensus

/-- Every ballot of node `v` is in an earlier term, or it is the state's own vote, unless the node has
resigned from that term and may have voted again. -/
def PersistentState.Accounts (state : PersistentState) (resigned : Set ℕ) (ballots : Ballots NodeID)
    (v : NodeID) : Prop :=
  ∀ t c, ballots v t = some c →
    t < state.currentTerm ∨ t = state.currentTerm ∧ (t ∈ resigned ∨ state.votedFor = c ∧ c ≠ "")

theorem PersistentState.Accounts.mono {state : PersistentState} {resigned more : Set ℕ}
    {ballots : Ballots NodeID} {v : NodeID} (accounts : state.Accounts resigned ballots v)
    (subset : resigned ⊆ more) : state.Accounts more ballots v :=
  fun t c voted => (accounts t c voted).imp_right fun ⟨now, vote⟩ => ⟨now, vote.imp_left (subset ·)⟩

theorem PersistentState.Accounts.free {state : PersistentState} {resigned : Set ℕ} {ballots : Ballots NodeID}
    {v c : NodeID} (accounts : state.Accounts resigned ballots v) (serving : state.currentTerm ∉ resigned)
    (vote : state.votedFor = "" ∨ state.votedFor = c) (other : NodeID)
    (voted : ballots v state.currentTerm = some other) : other = c := by
  rcases accounts _ _ voted with earlier | ⟨_, left | ⟨same, cast⟩⟩
  · exact absurd earlier (lt_irrefl _)
  · exact absurd left serving
  · rcases vote with none | own
    · exact absurd (same.symm.trans none) cast
    · exact same.symm.trans own

/-- A state that may follow: a vote is given up only in a term that the node has resigned from. -/
def PersistentState.Yields (resigned : Set ℕ) (before after : PersistentState) : Prop :=
  before.Precedes after ∨ before.currentTerm = after.currentTerm ∧ after.currentTerm ∈ resigned

theorem PersistentState.Accounts.yields {before after : PersistentState} {resigned : Set ℕ}
    {ballots : Ballots NodeID} {v : NodeID} (accounts : before.Accounts resigned ballots v)
    (yields : before.Yields resigned after) : after.Accounts resigned ballots v := by
  intro t c voted
  rcases accounts t c voted with earlier | ⟨rfl, own⟩
  · rcases yields with (ahead | ⟨same, _⟩) | ⟨same, _⟩
    · exact Or.inl (earlier.trans ahead)
    · exact Or.inl (earlier.trans_eq same)
    · exact Or.inl (earlier.trans_eq same)
  · rcases yields with (ahead | ⟨same, vote⟩) | ⟨same, left⟩
    · exact Or.inl ahead
    · refine Or.inr ⟨same, own.imp_right ?_⟩
      rintro ⟨rfl, cast⟩
      exact ⟨vote.resolve_left cast, cast⟩
    · exact Or.inr ⟨same, Or.inl (same ▸ left)⟩

/-- A granted vote stands for a ballot. -/
def Message.Honest (ballots : Ballots NodeID) : Message → Prop
  | .voteReply args reply =>
      reply.voteGranted → ballots reply.voterID reply.term = some args.candidateID
  | _ => True

def Observation.Honest (ballots : Ballots NodeID) : Observation → Prop
  | .sent message => message.Honest ballots
  | _ => True

/-- Ballots that only node `v` has added to. -/
structure Consensus.Ballots.AddedBy (v : NodeID) (ballots later : Ballots NodeID) : Prop where
  keeps : ballots.Extends later
  others : ∀ w, w ≠ v → later w = ballots w

/-- What any restart from the storage finds of the ballots. -/
def WALStorage.Casts (resigned : Set ℕ) (ballots : Ballots NodeID) (v : NodeID) (wal : WALStorage) : Prop :=
  ∀ contents, wal.Survives contents → contents.state.Accounts resigned ballots v

/-- What the votes of a running node have to do with the ballots cast so far, whatever its
membership is.  A vote that the node has read back and not stored itself is no ballot yet. -/
structure RaftNode.Casts (resigned : Set ℕ) (ballots : Ballots NodeID) (v : NodeID) (node : RaftNode) : Prop where
  id : node.id = v
  accounts : node.persistent.Accounts resigned ballots v
  votes : node.role = .candidate →
    ∀ voter ∈ node.votesReceived, ballots voter node.persistent.currentTerm = some v
  durable : node.storage.Casts resigned ballots v

variable {resigned : Set ℕ} {ballots later : Ballots NodeID} {v : NodeID} {node before after : RaftNode}
  {wal : WALStorage}

theorem Consensus.Ballots.AddedBy.refl (v : NodeID) (ballots : Ballots NodeID) :
    Ballots.AddedBy v ballots ballots :=
  ⟨.refl _, fun _ _ => rfl⟩

theorem Consensus.Ballots.AddedBy.trans {final : Ballots NodeID}
    (first : Ballots.AddedBy v ballots later) (second : Ballots.AddedBy v later final) :
    Ballots.AddedBy v ballots final :=
  ⟨first.keeps.trans second.keeps, fun w other => (second.others w other).trans (first.others w other)⟩

theorem Consensus.Ballots.addedBy_cast {t : ℕ} {c : NodeID}
    (free : ∀ other, ballots v t = some other → other = c) :
    Ballots.AddedBy v ballots (ballots.cast v t c) :=
  ⟨Ballots.extends_cast free, fun _ other => Ballots.cast_of_ne other⟩

theorem Message.Honest.mono {message : Message} (honest : message.Honest ballots)
    (keeps : ballots.Extends later) : message.Honest later := by
  cases message with
  | voteReply args reply => exact fun granted => keeps _ _ _ (honest granted)
  | _ => trivial

theorem Observation.Honest.mono {observation : Observation} (honest : observation.Honest ballots)
    (keeps : ballots.Extends later) : observation.Honest later := by
  cases observation with
  | sent message => exact Message.Honest.mono honest keeps
  | _ => trivial

namespace RaftNode

theorem Casts.mono {more : Set ℕ} (casts : node.Casts resigned ballots v) (subset : resigned ⊆ more) :
    node.Casts more ballots v where
  id := casts.id
  accounts := casts.accounts.mono subset
  votes := casts.votes
  durable contents survives := (casts.durable contents survives).mono subset

theorem Casts.of_spares (casts : node.Casts resigned ballots v) (spares : node.Spares wal) :
    wal.Casts resigned ballots v := by
  intro contents survives
  rcases spares contents survives with ⟨earlier, survived, same⟩ | extended
  · exact same ▸ casts.durable earlier survived
  · exact casts.accounts.yields (Or.inl extended.1)

theorem Casts.of_keep (casts : before.Casts resigned ballots v) (kept : before.KeepsBallot after) :
    after.Casts resigned ballots v where
  id := kept.id.trans casts.id
  accounts := kept.persistent ▸ casts.accounts
  votes := by
    intro candidate
    rw [kept.persistent]
    rcases kept.role with follower | ⟨role, votes⟩
    · simp [follower] at candidate
    · rw [votes]
      exact casts.votes (role ▸ candidate)
  durable := casts.of_spares kept.storage

/-- A durable state is the only one that a crash can leave. -/
theorem durable_casts {state : PersistentState} (accounts : state.Accounts resigned ballots v)
    (durable : ∀ contents, wal.Survives contents → contents.state = state) : wal.Casts resigned ballots v := by
  intro contents survives
  rw [durable contents survives]
  exact accounts

/-- A later state is stored, and the node counts no other votes than before. -/
theorem Casts.of_precedes (casts : before.Casts resigned ballots v)
    (precedes : before.persistent.Precedes after.persistent) (id : after.id = before.id)
    (votes : after.role = .candidate → before.role = .candidate ∧
      after.persistent.currentTerm = before.persistent.currentTerm ∧ after.votesReceived = before.votesReceived)
    (durable : ∀ contents, after.storage.Survives contents → contents.state = after.persistent) :
    after.Casts resigned ballots v := by
  have accounts := casts.accounts.yields (Or.inl precedes)
  refine { id := id.trans casts.id, accounts := accounts, votes := ?_, durable := durable_casts accounts durable }
  intro standing
  obtain ⟨candidate, term, same⟩ := votes standing
  rw [term, same]
  exact casts.votes candidate

/-- A durable vote can be counted as cast. -/
theorem Casts.cast_vote (casts : node.Casts resigned ballots v) (cast : node.persistent.votedFor ≠ "")
    (serving : node.persistent.currentTerm ∉ resigned)
    (durable : ∀ contents, node.storage.Survives contents → contents.state = node.persistent) :
    Ballots.AddedBy v ballots (ballots.cast v node.persistent.currentTerm node.persistent.votedFor) ∧
      node.Casts resigned (ballots.cast v node.persistent.currentTerm node.persistent.votedFor) v := by
  have free := casts.accounts.free serving (Or.inr rfl)
  have keeps := Ballots.extends_cast free
  have accounts : node.persistent.Accounts resigned
      (ballots.cast v node.persistent.currentTerm node.persistent.votedFor) v := by
    intro t c voted
    by_cases now : t = node.persistent.currentTerm
    · subst now
      rw [Ballots.cast_self] at voted
      exact Or.inr ⟨rfl, Or.inr ⟨Option.some.inj voted, Option.some.inj voted ▸ cast⟩⟩
    · rw [Ballots.cast_other_term now] at voted
      exact casts.accounts t c voted
  exact ⟨Ballots.addedBy_cast free, casts.id, accounts,
    fun standing voter member => keeps _ _ _ (casts.votes standing voter member), durable_casts accounts durable⟩

theorem Casts.of_stand (casts : before.Casts resigned ballots v)
    (voter : membershipIsVoter before.persistent.membership before.id) (id : after.id = before.id)
    (persistent : after.persistent =
      { before.persistent with
        currentTerm := before.persistent.currentTerm + 1, votedFor := before.id })
    (votes : after.votesReceived = [before.id])
    (durable : ∀ contents, after.storage.Survives contents → contents.state = after.persistent) :
    after.Casts resigned (ballots.cast v (before.persistent.currentTerm + 1) v) v := by
  have same := casts.id
  have cast : v ≠ "" := same ▸ membershipIsVoter_ne_empty voter
  have accounts : after.persistent.Accounts resigned (ballots.cast v (before.persistent.currentTerm + 1) v) v := by
    intro t c voted
    rw [persistent]
    by_cases now : t = before.persistent.currentTerm + 1
    · subst now
      rw [Ballots.cast_self] at voted
      cases voted
      exact Or.inr ⟨rfl, Or.inr ⟨same, cast⟩⟩
    · rw [Ballots.cast_other_term now] at voted
      rcases casts.accounts t c voted with earlier | ⟨now, _⟩
      · exact Or.inl (earlier.trans (Nat.lt_succ_self _))
      · exact Or.inl (now ▸ Nat.lt_succ_self _)
  refine { id := id.trans same, accounts := accounts, votes := ?_, durable := durable_casts accounts durable }
  rw [persistent, votes, same]
  simp

/-- A node that stands has not voted in the term it enters. -/
theorem Casts.free_next (casts : before.Casts resigned ballots v) (other : NodeID)
    (voted : ballots v (before.persistent.currentTerm + 1) = some other) : other = v := by
  rcases casts.accounts _ _ voted with earlier | ⟨now, _⟩
  · exact absurd earlier (Nat.lt_asymm (Nat.lt_succ_self _))
  · exact absurd now (Nat.succ_ne_self _)

theorem Casts.of_move (casts : before.Casts resigned ballots v) (move : BallotMove before after) :
    ∃ later, Ballots.AddedBy v ballots later ∧ after.Casts resigned later v := by
  have precedes := move.precedes
  cases move with
  | keep kept => exact ⟨ballots, .refl _ _, casts.of_keep kept⟩
  | enter term ahead id persistent role durable =>
      exact ⟨ballots, .refl _ _, casts.of_precedes precedes id
        (fun standing => nomatch role.symm.trans standing) durable⟩
  | vote candidate voter free id persistent role votes durable =>
      exact ⟨ballots, .refl _ _, casts.of_precedes precedes id
        (fun standing => ⟨role ▸ standing, by rw [persistent], votes⟩) durable⟩
  | stand voter id persistent role votes durable =>
      exact ⟨_, Ballots.addedBy_cast casts.free_next, casts.of_stand voter id persistent votes durable⟩

theorem Casts.of_path (casts : before.Casts resigned ballots v) (path : before.BallotPath after) :
    ∃ later, Ballots.AddedBy v ballots later ∧ after.Casts resigned later v := by
  induction path with
  | refl => exact ⟨ballots, .refl _ _, casts⟩
  | tail _ move ih =>
      obtain ⟨middle, added, reached⟩ := ih
      obtain ⟨later, addedToo, moved⟩ := reached.of_move move
      exact ⟨later, added.trans addedToo, moved⟩

theorem Casts.of_lost (casts : before.Casts resigned ballots v) (lost : before.BallotLost wal) :
    ∃ later, Ballots.AddedBy v ballots later ∧ wal.Casts resigned later v := by
  obtain ⟨middle, path, spares⟩ := lost
  obtain ⟨later, added, reached⟩ := casts.of_path path
  exact ⟨later, added, reached.of_spares spares⟩

end RaftNode

/-- However a section ends, the node has cast nothing but ballots of its own. -/
def Outcome.Casts {α : Type} (outcome : Outcome α) (resigned : Set ℕ) (ballots : Ballots NodeID) (v : NodeID) :
    Prop :=
  outcome.Ensures (fun after _ => ∃ later, Ballots.AddedBy v ballots later ∧ after.Casts resigned later v)
    (fun wal => ∃ later, Ballots.AddedBy v ballots later ∧ wal.Casts resigned later v)

namespace RaftNode

theorem Casts.done {α : Type} (casts : after.Casts resigned ballots v) (result : α) :
    (Outcome.done after result).Casts resigned ballots v :=
  ⟨ballots, .refl _ _, casts⟩

theorem Casts.follow {α : Type} {outcome : Outcome α} (casts : node.Casts resigned ballots v)
    (ensures : outcome.Ensures (fun after _ => node.BallotPath after) node.BallotLost) :
    outcome.Casts resigned ballots v :=
  ensures.mono (fun _ _ => casts.of_path) fun _ => casts.of_lost

theorem Casts.move {α : Type} {outcome : Outcome α} (casts : node.Casts resigned ballots v)
    (ensures : outcome.Ensures (fun after _ => BallotMove node after) node.Spares) :
    outcome.Casts resigned ballots v :=
  casts.follow (ensures.mono (fun _ _ => .of_move) fun _ => Spares.lost)

theorem Casts.handleVoteReply {args : RequestVoteArgs} {reply : RequestVoteReply}
    (casts : node.Casts resigned ballots v) (own : args.candidateID = v)
    (backed : (Message.voteReply args reply).Honest ballots) (fault : Fault) :
    (node.handleVoteReply args.term reply fault).Casts resigned ballots v := by
  unfold RaftNode.handleVoteReply
  split
  · rename_i ahead
    refine Outcome.Ensures.andThen (casts.move (node.enterTerm_ensures fault ahead))
      fun middle durable reached => ?_
    obtain ⟨later, added, entered⟩ := reached
    cases durable with
    | false => exact ⟨later, added, entered⟩
    | true => exact ⟨later, added, { entered with votes := fun _ _ member => by simp at member }⟩
  · split
    · rename_i counts
      simp only [countsVote, decide_eq_true_eq] at counts
      obtain ⟨_, electionTerm, replyTerm, granted, _⟩ := counts
      have voted := backed granted
      rw [replyTerm, electionTerm, own] at voted
      have counted : ({ node with votesReceived := reply.voterID :: node.votesReceived } : RaftNode).Casts
          resigned ballots v :=
        { casts with votes := fun standing => List.forall_mem_cons.mpr ⟨voted, casts.votes standing⟩ }
      exact counted.done ()
    · exact casts.done ()

theorem Casts.tryBecomeLeader (casts : node.Casts resigned ballots v) :
    node.tryBecomeLeader.Casts resigned ballots v := by
  unfold RaftNode.tryBecomeLeader
  split
  · exact casts.done _
  · split
    · exact casts.done _
    · obtain ⟨id, persistent, role, _, _, storage, _⟩ := node.becomeLeaderLocked_frame
      have leads : node.becomeLeaderLocked.Casts resigned ballots v := by
        refine ⟨id.trans casts.id, persistent ▸ casts.accounts, by simp [role], ?_⟩
        rw [storage]
        exact casts.durable
      exact leads.done _

/-- A state of the same term is saved, which has the same vote unless the node has resigned. -/
theorem Casts.persist (casts : node.Casts resigned ballots v) (state : PersistentState) (fault : Fault)
    (term : state.currentTerm = node.persistent.currentTerm)
    (vote : state.votedFor = node.persistent.votedFor ∨ state.votedFor = "" ∧ state.currentTerm ∈ resigned) :
    (node.persistState state fault).Ensures
      (fun after _ => after.Casts resigned ballots v ∧ after.role = node.role ∧ after.id = node.id ∧
        after.persistent.currentTerm = node.persistent.currentTerm)
      (fun wal => wal.Casts resigned ballots v) := by
  have yields : node.persistent.Yields resigned state := by
    rcases vote with same | ⟨_, left⟩
    · exact Or.inl (PersistentState.precedes_of_ballot_eq term same)
    · exact Or.inr ⟨term.symm, left⟩
  have accounts := casts.accounts.yields yields
  have appended : (node.storage.appendRecord (.state state)).Casts resigned ballots v := by
    intro contents survives
    rcases survives.of_appendRecord with earlier | rfl
    · exact casts.durable contents earlier
    · exact accounts
  cases fault with
  | none =>
      refine ⟨⟨casts.id, accounts, term ▸ casts.votes, ?_⟩, rfl, rfl, term⟩
      exact durable_casts accounts fun contents survives => by rw [survives.of_sync]; rfl
  | writeFails => exact ⟨casts, rfl, rfl, rfl⟩
  | syncFails | diskFull => exact ⟨{ casts with durable := appended }, rfl, rfl, rfl⟩
  | crash => exact appended

/-- A leader that applies its own removal gives up its vote. -/
theorem Casts.becomeFollowerLocked (casts : node.Casts resigned ballots v)
    (left : node.persistent.currentTerm ∈ resigned) (fault : Fault) :
    (node.becomeFollowerLocked node.persistent.currentTerm fault).Ensures
      (fun after _ => after.Casts resigned ballots v) (fun wal => wal.Casts resigned ballots v) := by
  refine Outcome.Ensures.andThen (casts.persist _ fault rfl (Or.inr ⟨rfl, left⟩)) fun middle durable saved => ?_
  cases durable with
  | false => exact saved.1
  | true => exact { saved.1 with votes := fun standing => nomatch (standing : Role.follower = .candidate) }

theorem Casts.applyConfigurationEntryLocked (casts : node.Casts resigned ballots v) {entry : LogEntry}
    (left : ∀ membership, nextMembership entry = .ok membership → node.mustLeave membership →
      node.persistent.currentTerm ∈ resigned) (stateFault leaveFault : Fault) :
    (node.applyConfigurationEntryLocked entry stateFault leaveFault).Ensures
      (fun after _ => after.Casts resigned ballots v) (fun wal => wal.Casts resigned ballots v) := by
  unfold RaftNode.applyConfigurationEntryLocked
  split
  · exact casts
  · rename_i membership next
    refine Outcome.Ensures.andThen (casts.persist _ stateFault rfl (Or.inl rfl)) fun middle durable saved => ?_
    obtain ⟨kept, role, id, term⟩ := saved
    split
    · exact kept
    · split
      · rename_i leaves
        rw [mustLeave, role, id] at leaves
        exact kept.becomeFollowerLocked (term ▸ left membership next leaves) leaveFault
      · exact kept

theorem Casts.pickCommitted (casts : node.Casts resigned ballots v)
    (left : node.removesItself → node.persistent.currentTerm ∈ resigned) (stateFault leaveFault : Fault) :
    (node.pickCommitted stateFault leaveFault).Ensures (fun after _ => after.Casts resigned ballots v)
      (fun wal => wal.Casts resigned ballots v) := by
  unfold RaftNode.pickCommitted
  split
  · exact casts
  · rename_i unfinished
    split
    · exact casts
    · rename_i entry found
      split
      · rename_i configuration
        have leaving : ∀ membership, nextMembership entry = .ok membership → node.mustLeave membership →
            node.persistent.currentTerm ∈ resigned := by
          intro membership next leaves
          exact left (by simp [removesItself, not_le.mp unfinished, found, configuration, next, leaves])
        refine (casts.applyConfigurationEntryLocked leaving stateFault leaveFault).andThen
          fun after applied kept => ?_
        split
        · exact { kept with }
        · exact kept
      · exact casts

end RaftNode

namespace RaftNode

theorem considerVote_term (node : RaftNode) (args : RequestVoteArgs) (fault : Fault) :
    (node.considerVote args fault).Ensures
      (fun _ reply => reply.voteGranted → reply.term = node.persistent.currentTerm) (fun _ => True) := by
  unfold considerVote
  split
  · exact fun granted => nomatch granted
  · split
    · exact fun granted => nomatch granted
    · split
      · exact fun granted => nomatch granted
      · refine (node.persistState_frame fault _).andThen fun middle durable frame => ?_
        intro _
        obtain ⟨_, _, persistent⟩ := frame
        change middle.persistent.currentTerm = _
        rw [persistent]
        cases durable with
        | false => rfl
        | true => rfl

theorem enterTerm_term (node : RaftNode) (term : ℕ) (fault : Fault) :
    (node.enterTerm term fault).Ensures
      (fun after durable => durable → after.persistent.currentTerm = term) (fun _ => True) := by
  refine (node.persistState_frame fault _).andThen fun middle durable frame => ?_
  obtain ⟨_, _, persistent⟩ := frame
  cases durable with
  | false => exact fun entered => nomatch entered
  | true => exact fun _ => congrArg PersistentState.currentTerm persistent

theorem requestVote_term (node : RaftNode) (args : RequestVoteArgs) (termFault voteFault : Fault) :
    (node.requestVote args termFault voteFault).Ensures
      (fun _ reply => reply.voteGranted → reply.term = args.term) (fun _ => True) := by
  unfold requestVote
  split
  · exact fun granted => nomatch granted
  · rename_i reached
    split
    · refine (node.enterTerm_term args.term termFault).andThen fun middle durable entered => ?_
      cases durable with
      | false => exact fun granted => nomatch granted
      | true =>
          have granted := middle.considerVote_term args voteFault
          rw [entered rfl] at granted
          exact granted
    · rename_i notAhead
      have now : args.term = node.persistent.currentTerm := by omega
      rw [now]
      exact node.considerVote_term args voteFault

end RaftNode

namespace Process

variable {process next : Process} {event : Event} {observations : List Observation}

/-- No read is served, and a node that has resigned from a term is not asked for its vote in it. -/
def keepsVote (resigned : Set ℕ) : Event → Prop
  | .beginRead _ | .probeRead _ _ | .receiveProbeResult _ _ _ _ | .cancelRead _ => False
  | .receiveRequestVote args _ _ => args.term ∉ resigned
  | _ => True

/-- Votes are granted in one section only. -/
theorem step_honest_of_ne (stepped : process.step event = some (.running next observations))
    (other : ∀ args termFault voteFault, event ≠ .receiveRequestVote args termFault voteFault) :
    ∀ observation ∈ observations, observation.Honest ballots := by
  intro observation member
  have shown := step_shows stepped observation member
  cases observation with
  | sent message =>
      cases message with
      | voteReply args reply =>
          obtain ⟨termFault, voteFault, same, _⟩ := shown
          exact absurd same (other args termFault voteFault)
      | _ => trivial
  | _ => trivial

/-- The term that a leader resigns from when it applies its own removal. -/
def resigns (process : Process) : Event → Option ℕ
  | .pickCommitted _ _ =>
      if process.node.removesItself then some process.node.persistent.currentTerm else none
  | _ => none

theorem effect_casts (casts : process.node.Casts resigned ballots v) (keeps : keepsVote resigned event)
    (left : ∀ term ∈ process.resigns event, term ∈ resigned)
    (arrived : ∀ args reply fault, event = .receiveVoteReply args reply fault →
      args.candidateID = v ∧ (Message.voteReply args reply).Honest ballots) :
    (process.effect event).Casts resigned ballots v := by
  cases event with
  | receiveVoteReply args reply fault =>
      obtain ⟨own, backed⟩ := arrived args reply fault rfl
      exact (casts.handleVoteReply own backed fault).forget
  | tryBecomeLeader => exact casts.tryBecomeLeader.forget
  | pickCommitted stateFault leaveFault =>
      have leaving : process.node.removesItself → process.node.persistent.currentTerm ∈ resigned :=
        fun leaves => left _ (by simp [resigns, leaves])
      exact ((casts.pickCommitted leaving stateFault leaveFault).mono
        (fun _ _ after => ⟨ballots, .refl _ _, after⟩) fun _ lost => ⟨ballots, .refl _ _, lost⟩).forget
  | receiveProbeResult read peerID result fault => cases keeps
  | _ => exact casts.follow (process.effect_path rfl)

/-- A vote is cast when it is granted: it has been stored, and nothing else can be read back. -/
theorem requestVote_casts {args : RequestVoteArgs} {termFault voteFault : Fault} {reply : RequestVoteReply}
    (handled : process.node.requestVote args termFault voteFault = .done next.node reply)
    (casts : next.node.Casts resigned ballots v) (serving : args.term ∉ resigned) :
    ∃ later, Ballots.AddedBy v ballots later ∧ next.node.Casts resigned later v ∧
      (Message.voteReply args reply).Honest later := by
  have ensures := process.node.requestVote_ensures args termFault voteFault
  have asked := process.node.requestVote_term args termFault voteFault
  rw [handled] at ensures asked
  by_cases granted : reply.voteGranted
  · obtain ⟨vote, cast, term, voter, durable⟩ := ensures.2 granted
    have current : next.node.persistent.currentTerm ∉ resigned := by
      rw [← term, asked granted]
      exact serving
    obtain ⟨added, counted⟩ := casts.cast_vote (vote ▸ cast) current durable
    refine ⟨_, added, counted, fun _ => ?_⟩
    rw [term, voter, casts.id, ← vote]
    exact Ballots.cast_self _ _ _ _
  · exact ⟨ballots, .refl _ _, casts, fun now => absurd now granted⟩

theorem step_casts (stepped : process.step event = some (.running next observations))
    (casts : process.node.Casts resigned ballots v) (keeps : keepsVote resigned event)
    (left : ∀ term ∈ process.resigns event, term ∈ resigned)
    (arrived : ∀ args reply fault, event = .receiveVoteReply args reply fault →
      args.candidateID = v ∧ (Message.voteReply args reply).Honest ballots) :
    ∃ later, Ballots.AddedBy v ballots later ∧ next.node.Casts resigned later v ∧
      ∀ observation ∈ observations, observation.Honest later := by
  obtain ⟨middle, added, reached⟩ := step_ensures stepped (effect_casts casts keeps left arrived)
  by_cases asked : ∃ args termFault voteFault, event = .receiveRequestVote args termFault voteFault
  · obtain ⟨args, termFault, voteFault, rfl⟩ := asked
    obtain ⟨reply, handled, _, rfl⟩ := settle_running (Option.some.inj stepped)
    obtain ⟨later, addedToo, counted, honest⟩ := requestVote_casts handled reached keeps
    exact ⟨later, added.trans addedToo, counted, List.forall_mem_singleton.mpr honest⟩
  · exact ⟨middle, added, reached, step_honest_of_ne stepped fun args termFault voteFault same =>
      asked ⟨args, termFault, voteFault, same⟩⟩

end Process

theorem WALStorage.Casts.reopen {reopened : WALStorage} {keep : ℕ} (stored : wal.Casts resigned ballots v)
    (opened : wal.reopen keep = .ok reopened) : reopened.Casts resigned ballots v :=
  fun contents survives => stored contents (survives.of_reopen opened)

def Host.Casts (resigned : Set ℕ) (ballots : Ballots NodeID) (v : NodeID) : Host → Prop
  | .up process => process.node.Casts resigned ballots v
  | .down wal => wal.Casts resigned ballots v

/-- What one node adds to the ballots does not concern the others. -/
theorem Host.Casts.mono {host : Host} (casts : host.Casts resigned ballots v)
    (keeps : ballots.Extends later) (same : later v = ballots v) : host.Casts resigned later v := by
  have accounts : ∀ state : PersistentState, state.Accounts resigned ballots v →
      state.Accounts resigned later v := by
    intro state accounted t c voted
    rw [same] at voted
    exact accounted t c voted
  cases host with
  | down wal => exact fun contents survives => accounts _ (casts contents survives)
  | up process =>
      have running : process.node.Casts resigned ballots v := casts
      exact {
        id := running.id
        accounts := accounts _ running.accounts
        votes := fun standing voter member => keeps _ _ _ (running.votes standing voter member)
        durable := fun contents survives => accounts _ (running.durable contents survives) }

theorem Cluster.boot_casts {cluster : Cluster} {process : Process} (booted : cluster.boot v wal = .ok process)
    (stored : wal.Casts resigned ballots v) : process.node.Casts resigned ballots v := by
  obtain ⟨log, _, rfl⟩ := boot_ok booted
  exact {
    id := rfl
    accounts := stored wal.contents wal.survives_contents
    votes := fun standing => nomatch (standing : Role.follower = .candidate)
    durable := stored }

end Raftiq
