import Raftiq.Refinement.Replication

namespace Raftiq

open Consensus

variable {cluster : Cluster} {regime : Regime} {h : History} {v : NodeID} {node : RaftNode} {fault : Fault}

namespace RaftNode

/-- The one call that would carry the boundary in place of an entry. -/
def sendsBoundary (node : RaftNode) (peerID : NodeID) : Prop :=
  node.nextIndex peerID = some 1 ∧ node.log.lastIncludedIndex = 1

instance (node : RaftNode) (peerID : NodeID) : Decidable (node.sendsBoundary peerID) :=
  inferInstanceAs (Decidable (_ ∧ _))

variable (tracks : node.Tracks cluster regime h v) (valid : cluster.Valid h)

include tracks valid

/-- A leader's log is the log of its term. -/
theorem Tracks.leader_log (leader : node.role = .leader) : h.log v = h.led (h.term v) :=
  valid.sound.leads_log v (tracks.leads leader).leads

theorem Tracks.leader_eq (leader : node.role = .leader) : h.leader (h.term v) = some v :=
  valid.sound.leads_leader v (tracks.leads leader).leads

theorem Tracks.marks_of_termAt (leader : node.role = .leader) {i : ℕ} (positive : 0 < i)
    (short : i ≤ (h.log v).length) (own : termAt (h.log v) i = h.term v) : h.Marks (h.term v) i := by
  obtain ⟨front, last, taken, length, term⟩ := take_eq_concat positive short
  refine ⟨front, last, ?_, length, ?_⟩
  · rw [← taken, tracks.leader_log valid leader]
    exact List.take_prefix _ _
  · rw [stamp_eq_term, ← term, own]

/-- What the commit rule finds is committed in the history. -/
theorem Tracks.canCommit_committed (leader : node.role = .leader) {index : ℕ}
    (above : node.commitIndex < index) (within : index ≤ node.log.lastIndex)
    (can : node.canCommit index) : ∃ j, index ≤ j ∧ h.Committed cluster.Quorum (h.term v) j := by
  have last := tracks.log.lastIndex
  have committed := tracks.committed
  have leading := tracks.leads leader
  simp only [canCommit, decide_eq_true_eq] at can
  obtain ⟨ownTerm, enough⟩ := can
  have marks : h.Marks (h.term v) index := by
    apply tracks.marks_of_termAt valid leader (by omega) (by omega)
    cases found : node.log.get index with
    | none =>
        rcases tracks.log.get_eq_none found with zero | below | beyond
        · omega
        · omega
        · omega
    | some entry =>
        obtain ⟨_, _, _, _, term⟩ := tracks.log.get_some found
        rw [← term, ← tracks.term, ← ownTerm, logTerm, found]
  by_cases beyond : ∃ j, index ≤ j ∧ h.Committed cluster.Quorum (h.term v) j
  · exact beyond
  · refine ⟨index, le_rfl, marks, {w | w ∈ node.replicatedOn index}, ?_, ?_⟩
    · rw [tracks.membership, (cluster.view_same v).hasQuorum_eq] at enough
      exact ⟨_, enough, fun _ member => member⟩
    · intro w member
      simp only [replicatedOn, Set.mem_ofPred_eq, List.mem_cons, List.mem_filter, decide_eq_true_eq] at member
      rcases member with rfl | ⟨peer, reached⟩
      · rw [tracks.id]
        exact leading.own index marks
      · exact (leading.matched w peer index reached marks).resolve_right beyond

theorem advanceCommitIndexLocked_tracks : node.advanceCommitIndexLocked.Tracks cluster regime h v := by
  have moved := node.advanceCommitIndexLocked_cases
  have committed := tracks.committed
  refine { tracks with stands := ?_, leads := ?_, committed := ?_, commit := ?_ }
  · exact fun candidate => ⟨(tracks.stands candidate).stands, (tracks.stands candidate).vacant,
      (tracks.stands candidate).votes⟩
  · exact fun leader => ⟨(tracks.leads leader).leads, (tracks.leads leader).own,
      (tracks.leads leader).bounded, (tracks.leads leader).matched⟩
  · change node.log.lastIncludedIndex ≤ node.advanceCommitIndexLocked.commitIndex
    omega
  · intro commits
    rcases moved with same | ⟨leader, above, within, can⟩
    · rw [same]
      exact tracks.commit commits
    · obtain ⟨j, reached, committed⟩ := tracks.canCommit_committed valid leader above within can
      have last := tracks.log.lastIndex
      refine ⟨by omega, Or.inr ⟨h.term v, j, committed, le_rfl, ?_, ?_⟩⟩
      · rw [List.length_take]
        omega
      · rw [tracks.leader_log valid leader]
        exact List.take_prefix _ _

theorem observeCommit_sound {after : RaftNode} (commit : after.commitIndex = node.commitIndex) :
    ∀ observation ∈ Process.observeCommit after node.advanceCommitIndexLocked,
      observation.Sound cluster regime h v := by
  unfold Process.observeCommit
  split
  · rename_i raised
    simp only [List.forall_mem_singleton]
    rcases node.advanceCommitIndexLocked_cases with same | ⟨leader, above, within, can⟩
    · omega
    · have last := tracks.log.lastIndex
      obtain ⟨j, reached, committed⟩ := tracks.canCommit_committed valid leader above within can
      change Observation.Sound cluster regime h v
        (.committed node.persistent.currentTerm node.advanceCommitIndexLocked.commitIndex node.log)
      rw [tracks.term]
      refine ⟨tracks.leader_eq valid leader, h.log v, tracks.shows, ?_, by omega, j, reached, committed⟩
      rw [tracks.leader_log valid leader]
  · simp

/-- A leader extends its log in storage, in memory and in the history. -/
theorem propose_tracks {entry : LogEntry} {log : Log} (leader : node.role = .leader)
    (own : entry.term = h.term v) (next : entry.index = (h.log v).length + 1)
    (appended : node.log.append entry = .ok log)
    (fits : validateAppend node.storage.contents.entries [entry] = .ok ()) :
    RaftNode.Tracks cluster regime (h.propose v entry) v
      { node with storage := (node.storage.appendRecord (.entries [entry])).sync, log := log } := by
  have leading := tracks.leads leader
  have moves : h.Moves v (h.propose v entry) := Ledger.propose_moves valid.sound leading.leads own
  obtain ⟨views, boundary⟩ := tracks.log.append appended
  have longer : (h.propose v entry).log v = h.log v ++ [entry] := by simp
  have front : ∀ c, c ≤ (h.log v).length → ((h.propose v entry).log v).take c = (h.log v).take c := by
    intro c short
    rw [longer, List.take_append_of_le_length short]
  have acked : ∀ i, i ≤ (h.log v).length + 1 → (h.propose v entry).acked v (h.term v) i :=
    fun i short => Or.inr ⟨rfl, rfl, short⟩
  refine { id := tracks.id, term := tracks.term, vote := tracks.vote, membership := tracks.membership,
           log := longer ▸ views, stands := ?_, leads := ?_, boundary := ?_, applied := ?_, committed := ?_,
           commit := ?_, synced := rfl, stored := ?_ }
  · exact fun candidate => nomatch leader.symm.trans candidate
  · intro _
    refine ⟨leading.leads, ?_, ?_, ?_⟩
    · intro i marks
      apply acked
      have length := marks.length_le
      rw [Ledger.propose_led_eq leading.leads valid.sound] at length
      rw [tracks.leader_log valid leader]
      simpa using length
    · intro peerID peer
      rw [longer, List.length_append]
      exact (leading.bounded peerID peer).trans (Nat.le_add_right _ _)
    · intro peerID peer i reached marks
      have bounded := leading.bounded peerID peer
      rcases Ledger.propose_marks_cases valid.sound leading.leads marks with old | ⟨_, new⟩
      · rcases leading.matched peerID peer i reached old with known | ⟨j, beyond, committed⟩
        · exact Or.inl (Or.inl known)
        · exact Or.inr ⟨j, beyond, moves.keeps.committed committed⟩
      · have length := congrArg List.length (tracks.leader_log valid leader)
        simp only [Ledger.propose_term] at new
        have reachedToo : i ≤ node.matchIndex peerID := reached
        omega
  · change Ledger.Secured _ _ _ (List.take log.lastIncludedIndex _)
    rw [boundary, front _ tracks.log.inside]
    exact tracks.boundary.mono moves.keeps le_rfl
  · change log.lastIncludedIndex ≤ node.lastApplied
    rw [boundary]
    exact tracks.applied
  · change log.lastIncludedIndex ≤ node.commitIndex
    rw [boundary]
    exact tracks.committed
  · intro commits
    obtain ⟨within, secured⟩ := tracks.commit commits
    refine ⟨?_, ?_⟩
    · rw [longer, List.length_append]
      exact within.trans (Nat.le_add_right _ _)
    · change Ledger.Secured _ _ _ (List.take node.commitIndex _)
      rw [front _ within]
      exact secured.mono moves.keeps le_rfl
  · change Stored _ _ _ _ _ _ _ log.lastIncludedIndex _
    rw [boundary, longer]
    have kept := tracks.stored.entries.append tracks.log.inside rfl next fits
    exact (tracks.stored.withEntries kept).mono moves.keeps

theorem propose_follows {data : Bytes} (command : ¬ isConfigurationEntry data) (works : fault.Works) :
    (node.propose data fault).Follows cluster regime h v
      (fun later after result => ∀ observation ∈ Process.observeProposal node after result,
        observation.Sound cluster regime later v) := by
  unfold propose
  split
  · exact Outcome.follows_done valid tracks (by simp [Process.observeProposal])
  · rename_i role
    have leader := not_not.mp role
    have leading := tracks.leads leader
    have last := tracks.log.lastIndex
    dsimp only
    generalize made : ({ index := node.log.lastIndex + 1, term := node.persistent.currentTerm, data := data } :
      LogEntry) = entry
    have own : entry.term = h.term v := by
      rw [← made]
      exact tracks.term
    have next : entry.index = (h.log v).length + 1 := by
      rw [← made, ← last]
    have plain : ¬ isConfigurationEntry entry.data := by
      rw [← made]
      exact command
    rcases WALStorage.appendEntries_works works (List.cons_ne_nil entry []) with
      ⟨error, failed⟩ | ⟨fits, saved | crashed⟩
    · rw [failed]
      cases error with
      | diskFull =>
          refine Outcome.follows_done valid { tracks with stands := ?_, leads := ?_ }
            (by simp [Process.observeProposal])
          · exact fun candidate => nomatch (candidate : Role.follower = .candidate)
          · exact fun leading => nomatch (leading : Role.follower = .leader)
      | _ => exact Outcome.follows_done valid tracks (by simp [Process.observeProposal])
    · obtain ⟨log, appended⟩ := tracks.log.append_ok next
      have proposed := propose_tracks tracks valid leader own next appended fits
      have validLater := valid.propose leading.leads own next plain
      rw [saved]
      dsimp only
      rw [appended]
      refine ⟨_, Ledger.propose_moves valid.sound leading.leads own, validLater,
        advanceCommitIndexLocked_tracks proposed validLater, ?_⟩
      intro observation member
      rcases List.mem_append.mp member with noted | raised
      · obtain ⟨logged, _, rfl⟩ := Option.map_eq_some_iff.mp (Option.mem_toList.mp noted)
        trivial
      · exact observeCommit_sound proposed validLater rfl observation raised
    · rw [crashed]
      have kept := tracks.stored.entries.append tracks.log.inside rfl next fits
      exact ⟨h, .refl h v, valid,
        tracks.unsynced (.propose entry leading.leads own next plain) (tracks.stored.withEntries kept)⟩

omit valid in
theorem Tracks.commitSound (commits : regime.commits) :
    CommitSound cluster h (h.term v) node.commitIndex := by
  obtain ⟨within, secured⟩ := tracks.commit commits
  cases secured with
  | inl empty =>
      have length := congrArg List.length empty
      rw [List.length_take, Nat.min_eq_left within] at length
      exact Or.inl length
  | inr committed =>
      obtain ⟨t, i, committed, early, short, _⟩ := committed
      rw [List.length_take, Nat.min_eq_left within] at short
      exact Or.inr ⟨t, i, committed, early, short⟩

/-- A leader sends the rest of its log. -/
theorem buildAppendEntries_sound {peerID : NodeID} {args : AppendEntriesArgs}
    (built : node.buildAppendEntries peerID = some args) (regular : ¬ node.sendsBoundary peerID) :
    args.Sound cluster regime h ∧
      (regime.commits → args.leaderCommit ≤ args.prevLogIndex + args.entries.length) ∧
      (Observation.builtFrom args node.log).Sound cluster regime h v := by
  have last := tracks.log.lastIndex
  have inside := tracks.log.inside
  unfold buildAppendEntries at built
  split at built
  · simp at built
  · rename_i role
    have leader := not_not.mp role
    have log := tracks.leader_log valid leader
    split at built
    · simp at built
    · rename_i nextIndex next
      split at built
      · simp at built
      · rename_i prevLogIndex prevLogTerm previous
        obtain ⟨before, reached, term, boundary⟩ := previousEntry_some tracks.log previous
        split at built
        · simp at built
        · rename_i entries collected
          have above : node.log.lastIncludedIndex < nextIndex := by
            by_contra below
            have missing : node.log.get nextIndex = none := by
              rcases Nat.eq_zero_or_pos nextIndex with rfl | positive
              · exact Log.Views.get_zero
              · have one : nextIndex = 1 := by omega
                subst one
                have other : node.log.lastIncludedIndex ≠ 1 := fun single => regular ⟨next, single⟩
                exact Log.Views.get_below (by omega)
            rw [collectEntries_none missing (by omega)] at collected
            simp at collected
          rw [last, collectEntries_eq tracks.log above (by omega)] at collected
          cases collected
          cases built
          have length : ((h.log v).drop (nextIndex - 1)).length = (h.log v).length - prevLogIndex := by
            rw [List.length_drop, before]
          have whole : prevLogIndex + ((h.log v).drop (nextIndex - 1)).length = (h.log v).length := by omega
          refine ⟨⟨?_, ?_, ?_, ?_, ?_⟩, ?_, h.log v, tracks.shows, ?_, whole.le⟩
          · rw [tracks.term, tracks.id]
            exact tracks.leader_eq valid leader
          · dsimp only
            rw [tracks.term, ← log, whole]
          · dsimp only
            rw [tracks.term, ← log, whole, List.take_length, before]
          · dsimp only
            rw [tracks.term, ← log, term]
          · dsimp only
            rw [tracks.term]
            exact tracks.commitSound
          · intro commits
            exact (tracks.commit commits).1.trans whole.ge
          · dsimp only
            rw [tracks.term, log]

theorem probeReadIndex_sound {read : PendingRead} {peerID : NodeID} {args : AppendEntriesArgs}
    (committed : regime.commits → CommitSound cluster h read.term read.commitIndex)
    (built : node.probeReadIndex read peerID = some args) :
    args.Sound cluster regime h ∧ args.entries = [] ∧ args.term = read.term ∧
      (Observation.builtFrom args node.log).Sound cluster regime h v := by
  unfold probeReadIndex at built
  split at built
  · simp at built
  · rename_i role
    simp only [not_or, not_not] at role
    obtain ⟨leader, current⟩ := role
    have log := tracks.leader_log valid leader
    split at built
    · simp at built
    · split at built
      · simp at built
      · rename_i prevLogIndex prevLogTerm previous
        obtain ⟨_, reached, term, _⟩ := previousEntry_some tracks.log previous
        cases built
        have same : read.term = h.term v := by rw [← current, tracks.term]
        refine ⟨⟨?_, ?_, ?_, ?_, committed⟩, rfl, rfl, h.log v, tracks.shows, ?_, by simpa using reached⟩
        · rw [same, tracks.id]
          exact tracks.leader_eq valid leader
        · rw [same, ← log]
          simpa using reached
        · simp [same, ← log]
        · rw [same, ← log, term]
        · rw [same, log]

omit valid in
/-- A leader learns how far a peer has come. -/
theorem Tracks.withMatch {matchIndex : NodeID → ℕ} {nextIndex : NodeID → Option ℕ}
    (known : node.role = .leader → ∀ peerID ∈ node.peerIDs,
      matchIndex peerID = node.matchIndex peerID ∨
        matchIndex peerID ≤ (h.log v).length ∧ ∀ i, i ≤ matchIndex peerID → h.Marks (h.term v) i →
          h.acked peerID (h.term v) i ∨ ∃ j, i ≤ j ∧ h.Committed cluster.Quorum (h.term v) j) :
    RaftNode.Tracks cluster regime h v { node with matchIndex := matchIndex, nextIndex := nextIndex } := by
  refine { tracks with stands := ?_, leads := ?_ }
  · exact fun candidate => ⟨(tracks.stands candidate).stands, (tracks.stands candidate).vacant,
      (tracks.stands candidate).votes⟩
  · intro leader
    have leading := tracks.leads leader
    refine ⟨leading.leads, leading.own, ?_, ?_⟩
    · intro peerID peer
      rcases known leader peerID peer with same | ⟨bounded, _⟩
      · exact same.trans_le (leading.bounded peerID peer)
      · exact bounded
    · intro peerID peer i reached marks
      rcases known leader peerID peer with same | ⟨_, matched⟩
      · exact leading.matched peerID peer i (reached.trans_eq same) marks
      · exact matched i reached marks

theorem recordMatch_tracks {peerID : NodeID} {args : AppendEntriesArgs} {last : LogEntry}
    (leader : node.role = .leader) (current : args.term = h.term v) (sound : args.Sound cluster regime h)
    (acked : ∀ i, i ≤ args.prevLogIndex + args.entries.length → h.acked peerID args.term i)
    (ends : args.entries.getLast? = some last) :
    (node.recordMatch peerID last.index).Tracks cluster regime h v := by
  have index : last.index = args.prevLogIndex + args.entries.length := by
    have length := sound.length_incoming
    have numbered := (valid.numbered_incoming args).drop args.prevLogIndex (by omega)
    rw [← sound.entries_eq, Nat.zero_add] at numbered
    exact numbered.getLast?_index ends
  have within := sound.within
  rw [current, ← tracks.leader_log valid leader, ← index] at within
  rw [current, ← index] at acked
  apply tracks.withMatch
  intro _ other _
  split
  · by_cases same : other = peerID
    · subst same
      rw [Function.update_self]
      exact Or.inr ⟨within, fun i reached _ => Or.inl (acked i reached)⟩
    · exact Or.inl (Function.update_of_ne same _ _)
  · exact Or.inl rfl

theorem handleAppendEntriesReply_follows {peerID : NodeID} {args : AppendEntriesArgs}
    {reply : AppendEntriesReply} (sent : (Message.appendReply peerID args reply).Sound cluster regime h)
    (works : fault.Works) :
    (node.handleAppendEntriesReply peerID args reply fault).Follows cluster regime h v
      (fun later after _ => ∀ observation ∈ Process.observeCommit node after,
        observation.Sound cluster regime later v) := by
  have unseen : ∀ after : RaftNode, after.commitIndex = node.commitIndex → ∀ (later : History),
      ∀ observation ∈ Process.observeCommit node after, observation.Sound cluster regime later v := by
    intro after same later
    simp [Process.observeCommit, same]
  unfold handleAppendEntriesReply
  split
  · rename_i ahead
    apply (enterTerm_follows tracks valid (Or.inl ahead) works).andThen
    intro later after durable _ validLater tracksLater entered
    exact Outcome.follows_done validLater tracksLater (unseen _ entered.2.2.2.2.2 _)
  · split
    · exact Outcome.follows_done valid tracks (unseen _ rfl _)
    · rename_i role
      split
      · exact Outcome.follows_done valid tracks (unseen _ rfl _)
      · rename_i current
        have sameTerm : args.term = h.term v := by
          rw [← tracks.term]
          exact not_not.mp current
        split
        · exact Outcome.follows_done valid (tracks.withMatch fun _ _ _ => Or.inl rfl) (unseen _ rfl _)
        · rename_i success
          split
          · exact Outcome.follows_done valid tracks (unseen _ rfl _)
          · rename_i last ends
            have recorded := recordMatch_tracks tracks valid (not_not.mp role) sameTerm sent.1
              (sent.2 (not_not.mp success)) ends
            exact Outcome.follows_done valid (advanceCommitIndexLocked_tracks recorded valid)
              (observeCommit_sound recorded valid rfl)

/-- The next entry to apply is a command, and it is committed. -/
theorem pickCommitted_tracks (stateFault leaveFault : Fault) :
    ∃ stage, node.pickCommitted stateFault leaveFault = .done node stage ∧
      (regime.commits → ∀ index entry, stage = .picked index entry → EntrySound cluster h entry) := by
  have applied := tracks.applied
  unfold pickCommitted
  split
  · exact ⟨.idle, rfl, fun _ _ _ picked => by simp at picked⟩
  · rename_i unfinished
    split
    · exact ⟨.idle, rfl, fun _ _ _ picked => by simp at picked⟩
    · rename_i entry found
      rw [tracks.log.get_above (by omega), Nat.add_sub_cancel] at found
      have command := valid.rooted_plain (valid.sound.log_rooted v) (List.mem_of_getElem? found)
      rw [if_neg command]
      refine ⟨_, rfl, ?_⟩
      rintro commits index picked ⟨rfl, rfl⟩
      obtain ⟨within, secured⟩ := tracks.commit commits
      have member : entry ∈ (h.log v).take node.commitIndex := by
        apply List.mem_of_getElem? (i := node.lastApplied)
        rw [List.getElem?_take_of_lt (by omega)]
        exact found
      cases secured with
      | inl empty => simp [empty] at member
      | inr committed =>
          obtain ⟨t, i, committed, _, short, inside⟩ := committed
          have taken : (h.log v).take node.commitIndex <+: (h.led t).take i :=
            List.prefix_take_iff.mpr ⟨inside, short⟩
          exact ⟨t, i, committed, taken.subset member⟩

end RaftNode

end Raftiq
