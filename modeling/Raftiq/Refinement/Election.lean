import Raftiq.Raft.TermOrder
import Raftiq.Refinement.Stability

namespace Raftiq

open Consensus

/-- The outcome is one that the history can follow: node `v` has taken steps of the
protocol, and whatever is left of it is where these steps lead. -/
def Outcome.Follows {α : Type} (cluster : Cluster) (regime : Regime) (h : History) (v : NodeID)
    (outcome : Outcome α) (done : History → RaftNode → α → Prop) : Prop :=
  outcome.Ensures
    (fun after result => ∃ later, h.Moves v later ∧ cluster.Valid later ∧
      after.Tracks cluster regime later v ∧ done later after result)
    (fun wal => ∃ later, h.Moves v later ∧ cluster.Valid later ∧ wal.Tracks cluster regime later v)

variable {cluster : Cluster} {regime : Regime} {h later : History} {v : NodeID} {node after : RaftNode}
  {fault : Fault}

namespace Outcome

variable {α β : Type} {outcome : Outcome α} {next : RaftNode → α → Outcome β}
  {middle : History → RaftNode → α → Prop} {done : History → RaftNode → β → Prop}

theorem Follows.andThen (first : outcome.Follows cluster regime h v middle)
    (second : ∀ later node result, h.Moves v later → cluster.Valid later →
      node.Tracks cluster regime later v → middle later node result →
      (next node result).Follows cluster regime later v done) :
    (outcome.andThen next).Follows cluster regime h v done := by
  apply Ensures.andThen first
  intro node result reached
  obtain ⟨later, moves, valid, tracks, known⟩ := reached
  apply (second later node result moves valid tracks known).mono
  · intro after result reached
    obtain ⟨final, movesOn, validToo, tracksToo, finished⟩ := reached
    exact ⟨final, moves.trans movesOn, validToo, tracksToo, finished⟩
  · intro wal reached
    obtain ⟨final, movesOn, validToo, tracksToo⟩ := reached
    exact ⟨final, moves.trans movesOn, validToo, tracksToo⟩

theorem follows_done {result : α} {done : History → RaftNode → α → Prop} (valid : cluster.Valid h)
    (tracks : node.Tracks cluster regime h v) (known : done h node result) :
    (Outcome.done node result).Follows cluster regime h v done :=
  ⟨h, .refl h v, valid, tracks, known⟩

end Outcome

@[simp] theorem voteOf_empty : voteOf "" = none := rfl

theorem voteOf_of_ne {votedFor : NodeID} (cast : votedFor ≠ "") : voteOf votedFor = some votedFor :=
  if_neg cast

namespace Stored

variable {term boundary : ℕ} {vote : Option NodeID} {log : List LogEntry} {contents : Contents}

theorem withState (stored : Stored cluster regime h v term vote log boundary contents)
    (state : PersistentState) (reached : term ≤ state.currentTerm)
    (membership : state.membership = cluster.view v) :
    Stored cluster regime h v state.currentTerm (voteOf state.votedFor) log boundary
      { contents with state := state } where
  sameTerm := rfl
  sameVote := rfl
  membership := membership
  missing := stored.missing
  snapshot snapshot found := by
    obtain ⟨compacts, below, sound⟩ := stored.snapshot snapshot found
    exact ⟨compacts, below, sound.mono (.refl h) reached⟩
  entries := stored.entries.mono (.refl h) reached

end Stored

namespace RaftNode

/-- A node whose storage holds no snapshot has its whole log in memory. -/
theorem Tracks.shows (tracks : node.Tracks cluster regime h v) : node.log.Shows regime (h.log v) := by
  refine ⟨tracks.log, ?_⟩
  cases found : node.storage.contents.snapshot with
  | none => exact Or.inr (tracks.stored.missing found)
  | some snapshot => exact Or.inl (tracks.stored.snapshot snapshot found).1

theorem Tracks.survives (tracks : node.Tracks cluster regime h v) :
    node.storage.Tracks cluster regime h v := by
  intro contents survives
  rw [survives.eq_of_synced tracks.synced]
  exact ⟨_, _, _, _, .nothing, tracks.stored⟩

theorem Tracks.withStorage (tracks : node.Tracks cluster regime h v) {wal : WALStorage}
    (synced : wal.synced = wal.file.length)
    (stored : Stored cluster regime h v (h.term v) (h.voted v (h.term v)) (h.log v)
      node.log.lastIncludedIndex wal.contents) :
    RaftNode.Tracks cluster regime h v { node with storage := wal } :=
  { tracks with
    stands := fun candidate => ⟨(tracks.stands candidate).stands, (tracks.stands candidate).vacant,
      (tracks.stands candidate).votes⟩
    leads := fun leader => ⟨(tracks.leads leader).leads, (tracks.leads leader).own,
      (tracks.leads leader).bounded, (tracks.leads leader).matched⟩
    synced := synced
    stored := stored }

/-- A crash before `Sync` leaves the record or loses it. -/
theorem Tracks.unsynced (tracks : node.Tracks cluster regime h v) {record : Record} {term boundary : ℕ}
    {vote : Option NodeID} {log : List LogEntry} (promise : Promise h v term vote log)
    (stored : Stored cluster regime h v term vote log boundary (record.effect node.storage.contents)) :
    (node.storage.appendRecord record).Tracks cluster regime h v := by
  intro contents survives
  rcases survives.of_appendRecord with earlier | rfl
  · exact tracks.survives contents earlier
  · exact ⟨term, vote, log, boundary, promise, stored⟩

/-- The node has made a state durable and changed nothing else that the history knows. -/
structure Saves (node : RaftNode) (state : PersistentState) (after : RaftNode) : Prop where
  id : after.id = node.id
  persistent : after.persistent = state
  storage : after.storage = (node.storage.appendRecord (.state state)).sync
  log : after.log = node.log
  applied : after.lastApplied = node.lastApplied
  commit : after.commitIndex = node.commitIndex

theorem Tracks.saves (tracks : node.Tracks cluster regime h v) (moves : h.Moves v later)
    (state : PersistentState) (saves : node.Saves state after) (sameLog : later.log v = h.log v)
    (term : later.term v = state.currentTerm)
    (vote : later.voted v state.currentTerm = voteOf state.votedFor)
    (membership : state.membership = cluster.view v)
    (stands : after.role = .candidate → after.Stands later v)
    (leads : after.role = .leader → after.Leads cluster later v) :
    after.Tracks cluster regime later v := by
  have reached : h.term v ≤ state.currentTerm := term ▸ moves.keeps.term_le v
  refine { id := saves.id.trans tracks.id, term := saves.persistent ▸ term.symm, vote := ?_,
           membership := saves.persistent ▸ membership, log := ?_, stands := stands, leads := leads,
           boundary := ?_, applied := ?_, committed := ?_, commit := ?_, synced := ?_, stored := ?_ }
  · rw [saves.persistent, term, vote]
  · rw [saves.log, sameLog]
    exact tracks.log
  · rw [saves.log, sameLog, term]
    exact tracks.boundary.mono moves.keeps reached
  · rw [saves.log, saves.applied]
    exact tracks.applied
  · rw [saves.log, saves.commit]
    exact tracks.committed
  · intro commits
    obtain ⟨within, secured⟩ := tracks.commit commits
    rw [sameLog, saves.commit, term]
    exact ⟨within, secured.mono moves.keeps reached⟩
  · rw [saves.storage]
    rfl
  · rw [saves.storage, saves.log, sameLog, term, vote]
    exact (tracks.stored.withState state reached membership).mono moves.keeps

theorem persistState_works (node : RaftNode) (state : PersistentState) (works : fault.Works) :
    node.persistState state fault =
        .done
          { node with
            storage := (node.storage.appendRecord (.state state)).sync
            persistent := state }
          true ∨
      node.persistState state fault = .crashed (node.storage.appendRecord (.state state)) := by
  cases works with
  | inl none =>
      subst none
      exact Or.inl rfl
  | inr crash =>
      subst crash
      exact Or.inr rfl

theorem enterTerm_follows (tracks : node.Tracks cluster regime h v) (valid : cluster.Valid h) {term : ℕ}
    (ahead : node.persistent.currentTerm < term ∨
      node.persistent.currentTerm = term ∧ node.persistent.votedFor = "")
    (works : fault.Works) :
    (node.enterTerm term fault).Follows cluster regime h v
      (fun later after durable => durable = true ∧ later.term v = term ∧ after.role = .follower ∧
        ¬ later.stands v ∧ after.log = node.log ∧ after.commitIndex = node.commitIndex) := by
  have current := tracks.term
  have reached : h.term v ≤ term := by omega
  have fresh : h.voted v term = none := by
    rcases ahead with ahead | ⟨same, none⟩
    · cases voted : h.voted v term with
      | none => rfl
      | some c =>
          have bounded := valid.sound.voted_bounded v term c voted
          omega
    · rw [← same, current, ← tracks.vote, none]
      rfl
  unfold enterTerm
  rcases node.persistState_works (node.persistent.enterTerm term) works with done | crashed
  · rw [done]
    have moves := Ledger.advance_moves reached
    refine ⟨h.advance v term, moves, valid.advance reached, ?_, rfl, by simp, rfl, by simp, rfl, rfl⟩
    refine tracks.saves moves (node.persistent.enterTerm term) ⟨rfl, rfl, rfl, rfl, rfl, rfl⟩ rfl
      (by simp [PersistentState.enterTerm]) fresh tracks.membership ?_ ?_
    · exact fun candidate => nomatch (candidate : Role.follower = .candidate)
    · exact fun leader => nomatch (leader : Role.follower = .leader)
  · rw [crashed]
    refine ⟨h, .refl h v, valid, ?_⟩
    have stored : Stored cluster regime h v term none (h.log v) node.log.lastIncludedIndex
        ((Record.state (node.persistent.enterTerm term)).effect node.storage.contents) :=
      tracks.stored.withState (node.persistent.enterTerm term) reached tracks.membership
    rcases ahead with ahead | ⟨same, none⟩
    · exact tracks.unsynced (.enter term (by omega)) stored
    · have now : term = h.term v := by omega
      subst now
      rw [← fresh] at stored
      exact tracks.unsynced .nothing stored

theorem startElection_follows (tracks : node.Tracks cluster regime h v) (valid : cluster.Valid h)
    (works : fault.Works) :
    (node.startElection fault).Follows cluster regime h v (fun _ _ _ => True) := by
  have id := tracks.id
  have term := tracks.term
  unfold startElection
  split
  · exact Outcome.follows_done valid tracks trivial
  · rename_i voter
    split
    · exact Outcome.follows_done valid tracks trivial
    · have cast : v ≠ "" := id ▸ membershipIsVoter_ne_empty (not_not.mp voter)
      have ahead : h.term v < h.term v + 1 := Nat.lt_succ_self _
      generalize state : ({ node.persistent with
        currentTerm := node.persistent.currentTerm + 1, votedFor := node.id } : PersistentState) = next
      have nextTerm : next.currentTerm = h.term v + 1 := by rw [← state, ← term]
      have nextVote : voteOf next.votedFor = some v := by
        rw [← state, id]
        exact voteOf_of_ne cast
      have membership : next.membership = cluster.view v := by
        rw [← state]
        exact tracks.membership
      dsimp only
      rcases node.persistState_works next works with done | crashed
      · rw [done]
        have moves := Ledger.stand_moves valid.sound ahead
        refine ⟨h.stand v (h.term v + 1), moves, valid.stand ahead, ?_, trivial⟩
        refine tracks.saves moves next ⟨rfl, rfl, rfl, rfl, rfl, rfl⟩ rfl
          (by simp [nextTerm]) (by simp [nextTerm, nextVote]) membership ?_ ?_
        · intro _
          refine ⟨by simp, ?_, by simp [id]⟩
          intro leads
          have bounded := valid.sound.leader_bounded _ _ leads
          simp only [Ledger.stand_term, Function.update_self] at bounded
          omega
        · exact fun leader => nomatch (leader : Role.candidate = .leader)
      · rw [crashed]
        have stored := tracks.stored.withState next (by omega) membership
        rw [nextTerm, nextVote] at stored
        exact ⟨h, .refl h v, valid, tracks.unsynced .stand stored⟩

/-- The comparison in the handler is the one between positions. -/
theorem Tracks.position_le (tracks : node.Tracks cluster regime h v) {lastLogIndex lastLogTerm : ℕ}
    (upToDate : node.isCandidateLogUpToDate lastLogIndex lastLogTerm) :
    position (h.log v) ≤ toLex (lastLogTerm, lastLogIndex) := by
  rw [position_eq_termAt, ← tracks.log.lastTerm, ← tracks.log.lastIndex, Prod.Lex.le_iff]
  unfold isCandidateLogUpToDate at upToDate
  split at upToDate
  · exact Or.inl (by simpa using upToDate)
  · rename_i same
    exact Or.inr ⟨(not_not.mp same).symm, by simpa using upToDate⟩

theorem considerVote_follows {args : RequestVoteArgs} (tracks : node.Tracks cluster regime h v)
    (valid : cluster.Valid h) (current : args.term = h.term v) {target : NodeID}
    (sent : (Message.requestVote target args).Sound cluster regime h) (works : fault.Works) :
    (node.considerVote args fault).Follows cluster regime h v
      (fun later _ reply => (Message.voteReply args reply).Sound cluster regime later) := by
  have id := tracks.id
  have term := tracks.term
  have denied : (Message.voteReply args (node.voteReply false)).Sound cluster regime h :=
    fun granted => by simp [voteReply] at granted
  unfold considerVote
  split
  · exact Outcome.follows_done valid tracks denied
  · rename_i voter
    split
    · exact Outcome.follows_done valid tracks denied
    · rename_i bound
      split
      · exact Outcome.follows_done valid tracks denied
      · rename_i upToDate
        have cast := membershipIsVoter_ne_empty (not_not.mp voter)
        obtain ⟨log, advertised, shown⟩ := sent
        have far := tracks.position_le (not_not.mp upToDate)
        rw [← shown] at far
        rw [current] at advertised
        generalize state : ({ node.persistent with votedFor := args.candidateID } : PersistentState) = next
        have nextTerm : next.currentTerm = h.term v := by rw [← state, ← term]
        have nextVote : voteOf next.votedFor = some args.candidateID := by
          rw [← state]
          exact voteOf_of_ne cast
        have membership : next.membership = cluster.view v := by
          rw [← state]
          exact tracks.membership
        have stored := tracks.stored.withState next nextTerm.ge membership
        rw [nextTerm, nextVote] at stored
        by_cases again : node.persistent.votedFor = args.candidateID
        · have voted : h.voted v (h.term v) = some args.candidateID := by
            rw [← tracks.vote, again]
            exact voteOf_of_ne cast
          rcases node.persistState_works next works with done | crashed
          · rw [done]
            refine ⟨h, .refl h v, valid, ?_, ?_⟩
            · exact tracks.saves (.refl h v) next ⟨rfl, rfl, rfl, rfl, rfl, rfl⟩ rfl
                nextTerm.symm (by rw [nextTerm, voted, nextVote]) membership
                (fun candidate => ⟨(tracks.stands candidate).stands, (tracks.stands candidate).vacant,
                  (tracks.stands candidate).votes⟩)
                (fun leader => ⟨(tracks.leads leader).leads, (tracks.leads leader).own,
                  (tracks.leads leader).bounded, (tracks.leads leader).matched⟩)
            · intro _
              simpa [voteReply, id, nextTerm] using voted
          · rw [crashed]
            rw [← voted] at stored
            exact ⟨h, .refl h v, valid, tracks.unsynced .nothing stored⟩
        · have fresh : h.voted v (h.term v) = none := by
            simp only [not_and, not_not] at bound
            rw [← tracks.vote, by_contra fun cast => again (bound cast)]
            rfl
          rcases node.persistState_works next works with done | crashed
          · rw [done]
            have moves : h.Moves v (h.vote v args.candidateID) := Ledger.vote_moves fresh
            refine ⟨h.vote v args.candidateID, moves, valid.vote fresh advertised far, ?_, ?_⟩
            · exact tracks.saves moves next ⟨rfl, rfl, rfl, rfl, rfl, rfl⟩ rfl
                nextTerm.symm (by simp [nextTerm, nextVote]) membership
                (fun candidate => ⟨(tracks.stands candidate).stands, (tracks.stands candidate).vacant,
                  fun voter member => moves.keeps.voted _ _ _ ((tracks.stands candidate).votes voter member)⟩)
                (fun leader => ⟨(tracks.leads leader).leads, (tracks.leads leader).own,
                  (tracks.leads leader).bounded, (tracks.leads leader).matched⟩)
            · intro _
              simp [voteReply, id, nextTerm]
          · rw [crashed]
            exact ⟨h, .refl h v, valid, tracks.unsynced (.vote _ log fresh advertised far) stored⟩

theorem requestVote_follows {args : RequestVoteArgs} {termFault voteFault : Fault}
    (tracks : node.Tracks cluster regime h v) (valid : cluster.Valid h) {target : NodeID}
    (sent : (Message.requestVote target args).Sound cluster regime h) (works : termFault.Works)
    (worksToo : voteFault.Works) :
    (node.requestVote args termFault voteFault).Follows cluster regime h v
      (fun later _ reply => (Message.voteReply args reply).Sound cluster regime later) := by
  have term := tracks.term
  unfold requestVote
  split
  · exact Outcome.follows_done valid tracks fun granted => by simp [voteReply] at granted
  · split
    · rename_i ahead
      apply (enterTerm_follows tracks valid (Or.inl ahead) works).andThen
      intro later after durable moves validLater tracksLater entered
      rw [if_pos entered.1]
      exact considerVote_follows tracksLater validLater entered.2.1.symm (sent.mono moves.keeps) worksToo
    · exact considerVote_follows tracks valid (by omega) sent worksToo

theorem handleVoteReply_follows {args : RequestVoteArgs} {reply : RequestVoteReply}
    (tracks : node.Tracks cluster regime h v) (valid : cluster.Valid h) (own : args.candidateID = v)
    (sent : (Message.voteReply args reply).Sound cluster regime h) (works : fault.Works) :
    (node.handleVoteReply args.term reply fault).Follows cluster regime h v (fun _ _ _ => True) := by
  unfold handleVoteReply
  split
  · rename_i ahead
    apply (enterTerm_follows tracks valid (Or.inl ahead) works).andThen
    intro later after durable _ validLater tracksLater entered
    rw [if_pos entered.1]
    refine Outcome.follows_done validLater { tracksLater with stands := ?_, leads := ?_ } trivial
    · exact fun candidate => nomatch entered.2.2.1.symm.trans candidate
    · exact fun leader => nomatch entered.2.2.1.symm.trans leader
  · split
    · rename_i counts
      simp only [countsVote, decide_eq_true_eq] at counts
      obtain ⟨_, electionTerm, replyTerm, granted, _⟩ := counts
      have voted := sent granted
      rw [replyTerm, electionTerm, own, tracks.term] at voted
      refine Outcome.follows_done valid { tracks with stands := ?_, leads := ?_ } trivial
      · intro candidate
        have standing := tracks.stands candidate
        exact ⟨standing.stands, standing.vacant, List.forall_mem_cons.mpr ⟨voted, standing.votes⟩⟩
      · intro leader
        have leading := tracks.leads leader
        exact ⟨leading.leads, leading.own, leading.bounded, leading.matched⟩
    · exact Outcome.follows_done valid tracks trivial

theorem requestVotes_sound {args : RequestVoteArgs} (tracks : node.Tracks cluster regime h v)
    (valid : cluster.Valid h) (asked : node.requestVotes = some args) (target : NodeID) :
    (Message.requestVote target args).Sound cluster regime h := by
  unfold requestVotes at asked
  split at asked
  · simp at asked
  · rename_i standing
    simp only [not_or, not_not] at standing
    cases asked
    have stands := (tracks.stands standing.1).stands
    refine ⟨h.log v, ?_, ?_⟩
    · rw [tracks.id, tracks.term]
      exact ⟨le_rfl, valid.sound.log_rooted v, valid.sound.stands_fresh v stands,
        fun _ _ t i _ _ carries => Or.inl carries⟩
    · rw [position_eq_termAt, tracks.log.lastTerm, tracks.log.lastIndex]

theorem becomeLeaderLocked_matchIndex (node : RaftNode) {peerID : NodeID} (peer : peerID ∈ node.peerIDs) :
    node.becomeLeaderLocked.matchIndex peerID = 0 := by
  have zero : ∀ (peers : List NodeID) (start : RaftNode),
      peerID ∈ peers ∨ start.matchIndex peerID = 0 →
        (peers.foldl initializeReplicationStateLocked start).matchIndex peerID = 0 := by
    intro peers
    induction peers with
    | nil => exact fun start known => known.resolve_left (by simp)
    | cons first rest ih =>
        intro start known
        apply ih
        by_cases same : peerID = first
        · exact Or.inr (by simp [initializeReplicationStateLocked, same])
        · rcases known with member | already
          · exact Or.inl ((List.mem_cons.mp member).resolve_left same)
          · exact Or.inr (by simpa [initializeReplicationStateLocked, same] using already)
  exact zero node.peerIDs _ (Or.inl peer)

theorem tryBecomeLeader_follows (tracks : node.Tracks cluster regime h v) (valid : cluster.Valid h) :
    node.tryBecomeLeader.Follows cluster regime h v
      (fun later after won => ∀ observation ∈ Process.observeElection after won,
        observation.Sound cluster regime later v) := by
  unfold tryBecomeLeader
  split
  · exact Outcome.follows_done valid tracks (by simp [Process.observeElection])
  · rename_i standing
    split
    · exact Outcome.follows_done valid tracks (by simp [Process.observeElection])
    · rename_i counted
      have candidate := tracks.stands (not_not.mp standing)
      have enough : cluster.Quorum {voter | voter ∈ node.votesReceived} := by
        have quorum := not_not.mp counted
        rw [tracks.membership, (cluster.view_same v).hasQuorum_eq] at quorum
        exact ⟨_, quorum, fun _ member => member⟩
      have vacant : h.leader (h.term v) = none := by
        cases leader : h.leader (h.term v) with
        | none => rfl
        | some other =>
            have same := valid.sound.leader_unique cluster.quorum_intersects enough candidate.votes leader
            exact absurd (same ▸ leader) candidate.vacant
      have moves : h.Moves v (h.elect v {voter | voter ∈ node.votesReceived}) :=
        Ledger.elect_moves valid.sound candidate.stands vacant
      obtain ⟨id, persistent, role, votes, log, storage, commit, applied, peers⟩ :=
        node.becomeLeaderLocked_frame
      refine ⟨_, moves, valid.elect candidate.stands vacant enough candidate.votes tracks.log.numbered, ?_, ?_⟩
      · refine { id := id.trans tracks.id, term := persistent ▸ tracks.term, vote := persistent ▸ tracks.vote,
                 membership := persistent ▸ tracks.membership, log := log ▸ tracks.log, stands := ?_,
                 leads := ?_, boundary := ?_, applied := ?_, committed := ?_, commit := ?_,
                 synced := storage ▸ tracks.synced, stored := ?_ }
        · simp [role]
        · intro _
          have unmarked : ∀ i, ¬ (h.elect v {voter | voter ∈ node.votesReceived}).Marks (h.term v) i := by
            intro i marks
            rw [Ledger.elect_marks_iff valid.sound candidate.stands vacant] at marks
            have leader := marks.leader valid.sound
            simp [vacant] at leader
          refine ⟨by simp, fun i marks => absurd marks (unmarked i), fun peerID peer => ?_,
            fun _ _ i _ marks => absurd marks (unmarked i)⟩
          rw [peers] at peer
          rw [node.becomeLeaderLocked_matchIndex peer]
          exact Nat.zero_le _
        · rw [log]
          exact tracks.boundary.mono moves.keeps le_rfl
        · rw [log, applied]
          exact tracks.applied
        · rw [log, commit]
          exact tracks.committed
        · rw [commit]
          exact fun commits => ⟨(tracks.commit commits).1, (tracks.commit commits).2.mono moves.keeps le_rfl⟩
        · rw [log, storage]
          exact tracks.stored.mono moves.keeps
      · simp only [Process.observeElection, ↓reduceIte, List.forall_mem_singleton]
        rw [persistent, tracks.term, log]
        exact ⟨by simp, h.log v, [], tracks.shows, by simp, by simp⟩

end RaftNode

end Raftiq
