import Raftiq.Refinement.Leader

namespace Raftiq

open Consensus

variable {cluster : Cluster} {regime : Regime} {h : History} {v : NodeID} {node : RaftNode} {fault : Fault}

theorem SnapshotSound.committed {bound index term : ℕ} (sound : SnapshotSound cluster h bound index term) :
    ∃ t i, h.Committed cluster.Quorum t i ∧ t ≤ bound ∧ index ≤ i ∧ 0 < index ∧
      ((h.led t).take index).length = index ∧ termAt ((h.led t).take index) index = term ∧
      h.Secured cluster.Quorum bound ((h.led t).take index) := by
  obtain ⟨front, secured, positive, length, last⟩ := sound
  have known := secured
  cases secured with
  | inl empty => simp [empty] at length; omega
  | inr committed =>
      obtain ⟨t, i, committed, early, short, inside⟩ := committed
      have taken : (h.led t).take index = front := by
        rw [← length]
        exact (List.prefix_iff_eq_take.mp inside).symm
      have reached : index ≤ i := length ▸ short
      rw [← taken] at known length last
      exact ⟨t, i, committed, early, reached, positive, length, last, known⟩

/-- Two committed prefixes of one length end with the same term. -/
theorem Cluster.Valid.termAt_secured (valid : cluster.Valid h) {bound wider index term : ℕ} {front : List LogEntry}
    (secured : h.Secured cluster.Quorum bound front) (length : front.length = index)
    (sound : SnapshotSound cluster h wider index term) : termAt front index = term := by
  obtain ⟨other, securedToo, _, lengthToo, last⟩ := sound
  have same : front = other := by
    rcases secured.comparable valid.sound cluster.quorum_intersects securedToo with below | above
    · exact below.eq_of_length (by omega)
    · exact (above.eq_of_length (by omega)).symm
  rw [same, last]

/-- Merging a committed prefix keeps a log that has its last entry and replaces any other. -/
theorem merge_of_restored {full front : List LogEntry} {log : Log} {snapshot : Snapshot}
    (rooted : h.Rooted full) (rootedFront : h.Rooted front)
    (length : front.length = snapshot.lastIncludedIndex)
    (term : termAt front snapshot.lastIncludedIndex = snapshot.lastIncludedTerm)
    (restored : log.Views full ∧ snapshot.lastIncludedIndex ≤ full.length ∧
        termAt full snapshot.lastIncludedIndex = snapshot.lastIncludedTerm ∨
      log.Views front ∧ log.entries = [] ∧ (full.length < snapshot.lastIncludedIndex ∨
        termAt full snapshot.lastIncludedIndex ≠ snapshot.lastIncludedTerm)) :
    log.Views (Ledger.merge full front) := by
  rcases restored with ⟨views, reached, same⟩ | ⟨views, _, other⟩
  · have agree := take_eq_of_termAt rooted rootedFront reached length.ge (same.trans term.symm)
    rw [← length, List.take_length, length] at agree
    rw [Ledger.merge_of_front (agree ▸ List.take_prefix _ _)]
    exact views
  · rw [Ledger.merge_of_not_front]
    · exact views
    · intro inside
      rcases other with short | differs
      · have reached := inside.length_le
        omega
      · apply differs
        rw [← termAt_of_front inside length.ge, term]

/-- A snapshot saved on top of what is stored. -/
theorem RaftNode.Tracks.saveSnapshot (tracks : node.Tracks cluster regime h v) {snapshot : Snapshot}
    (compacts : regime.compacts) (above : node.log.lastIncludedIndex ≤ snapshot.lastIncludedIndex)
    (sound : SnapshotSound cluster h (h.term v) snapshot.lastIncludedIndex snapshot.lastIncludedTerm)
    (works : fault.Works) :
    (node.storage.writeSync (WALStorage.saveSnapshot snapshot) fault =
        .ok (node.storage.appendRecord (.snapshot snapshot)).sync ∧
      RaftNode.Tracks cluster regime h v
        { node with storage := (node.storage.appendRecord (.snapshot snapshot)).sync }) ∨
    ∃ wal, node.storage.writeSync (WALStorage.saveSnapshot snapshot) fault = .crashed wal ∧
      wal.Tracks cluster regime h v := by
  have stored := tracks.stored.withSnapshot compacts above sound
  have accepted : WALStorage.saveSnapshot snapshot node.storage =
      .ok (node.storage.appendRecord (.snapshot snapshot)) := rfl
  rcases WALStorage.writeSync_works works accepted with saved | crashed
  · exact Or.inl ⟨saved, tracks.withStorage rfl stored⟩
  · exact Or.inr ⟨_, crashed, tracks.unsynced .nothing stored⟩

/-- What a compaction leaves in storage. -/
theorem Stored.compacted {term boundary : ℕ} {vote : Option NodeID} {log full : List LogEntry}
    {contents after : Contents} (stored : Stored cluster regime h v term vote log boundary contents)
    (compacts : regime.compacts) {snapshot : Snapshot} (state : after.state = contents.state)
    (saved : after.snapshot = some snapshot)
    (sound : SnapshotSound cluster h term snapshot.lastIncludedIndex snapshot.lastIncludedTerm)
    (kept : EntriesKept h term full snapshot.lastIncludedIndex after.entries) :
    Stored cluster regime h v term vote full snapshot.lastIncludedIndex after where
  sameTerm := state ▸ stored.sameTerm
  sameVote := state ▸ stored.sameVote
  membership := state ▸ stored.membership
  missing none := by simp [saved] at none
  snapshot found same := by
    rw [saved] at same
    cases same
    exact ⟨compacts, le_rfl, sound⟩
  entries := kept

theorem RaftNode.Tracks.withLog (tracks : node.Tracks cluster regime h v) {log : Log} {wal : WALStorage}
    (views : log.Views (h.log v))
    (secured : h.Secured cluster.Quorum (h.term v) ((h.log v).take log.lastIncludedIndex))
    (applied : log.lastIncludedIndex ≤ node.lastApplied)
    (committed : log.lastIncludedIndex ≤ node.commitIndex) (synced : wal.synced = wal.file.length)
    (stored : Stored cluster regime h v (h.term v) (h.voted v (h.term v)) (h.log v)
      log.lastIncludedIndex wal.contents) :
    RaftNode.Tracks cluster regime h v { node with storage := wal, log := log } where
  id := tracks.id
  term := tracks.term
  vote := tracks.vote
  membership := tracks.membership
  log := views
  stands candidate := ⟨(tracks.stands candidate).stands, (tracks.stands candidate).vacant,
    (tracks.stands candidate).votes⟩
  leads leader := ⟨(tracks.leads leader).leads, (tracks.leads leader).own, (tracks.leads leader).bounded,
    (tracks.leads leader).matched⟩
  boundary := secured
  applied := applied
  committed := committed
  commit := tracks.commit
  synced := synced
  stored := stored

namespace RaftNode

variable (tracks : node.Tracks cluster regime h v) (valid : cluster.Valid h)

include tracks valid

/-- Compacting the log and its storage up to an applied entry. -/
theorem persistAndCompactSnapshotLocked_follows {snapshot : Snapshot} {entry : LogEntry}
    {saveFault compactFault : Fault} (compacts : regime.compacts)
    (found : node.log.get snapshot.lastIncludedIndex = some entry)
    (same : entry.term = snapshot.lastIncludedTerm)
    (applied : snapshot.lastIncludedIndex ≤ node.lastApplied)
    (committed : snapshot.lastIncludedIndex ≤ node.commitIndex)
    (secured : h.Secured cluster.Quorum (h.term v) ((h.log v).take snapshot.lastIncludedIndex))
    (works : saveFault.Works) (worksToo : compactFault.Works) :
    (node.persistAndCompactSnapshotLocked snapshot saveFault compactFault).Follows cluster regime h v
      (fun _ _ _ => True) := by
  obtain ⟨positive, above, within, _, term⟩ := tracks.log.get_some found
  have sound : SnapshotSound cluster h (h.term v) snapshot.lastIncludedIndex
      snapshot.lastIncludedTerm := by
    refine ⟨_, secured, positive, ?_, ?_⟩
    · rw [List.length_take, Nat.min_eq_left within]
    · rw [termAt_take le_rfl, ← term, same]
  unfold persistAndCompactSnapshotLocked
  rcases tracks.saveSnapshot compacts above sound works with ⟨saved, savedTracks⟩ | ⟨wal, crashed, lost⟩
  · rw [saved]
    dsimp only
    rcases WALStorage.compactDurably_works worksToo with
      ⟨error, failed⟩ | ⟨compacted, done, finished | crashed⟩
    · rw [failed]
      exact Outcome.follows_done valid savedTracks trivial
    · rw [finished]
      dsimp only
      obtain ⟨log, shortened, _⟩ := Log.compact_found found same
      obtain ⟨views, boundary, _⟩ := tracks.log.compact shortened
      obtain ⟨state, entries, snapshotStored, synced, _⟩ := WALStorage.compact_ok done
      rw [shortened]
      refine Outcome.follows_done valid (tracks.withLog views ?_ ?_ ?_ synced ?_) trivial
      · rw [boundary]
        exact secured
      · exact boundary.trans_le applied
      · exact boundary.trans_le committed
      · rw [boundary]
        exact savedTracks.stored.compacted compacts state snapshotStored sound
          (entries ▸ tracks.stored.entries.compact tracks.log.numbered above positive within)
    · rw [crashed]
      exact ⟨h, .refl h v, valid, savedTracks.survives⟩
  · rw [crashed]
    exact ⟨h, .refl h v, valid, lost⟩

theorem createSnapshot_follows {index : ℕ} {data : Bytes} {saveFault compactFault : Fault}
    (compacts : regime.compacts) (commits : regime.commits) (works : saveFault.Works)
    (worksToo : compactFault.Works) :
    (node.createSnapshot index data saveFault compactFault).Follows cluster regime h v
      (fun _ _ _ => True) := by
  unfold createSnapshot
  split
  · exact Outcome.follows_done valid tracks trivial
  · rename_i entry accepted
    obtain ⟨applied, committed, _, found⟩ := validateSnapshotRequestLocked_ok accepted
    apply persistAndCompactSnapshotLocked_follows tracks valid compacts found rfl applied committed _ works
      worksToo
    apply (tracks.commit commits).2.of_front
    exact List.take_prefix_take_left committed

/-- Following a leader of the own term ends any candidacy in it. -/
theorem Tracks.follow (leaderID : NodeID) :
    h.Moves v (h.advance v (h.term v)) ∧ cluster.Valid (h.advance v (h.term v)) ∧
      RaftNode.Tracks cluster regime (h.advance v (h.term v)) v
        { node with role := .follower, leaderID := leaderID } := by
  have moves : h.Moves v (h.advance v (h.term v)) := Ledger.advance_moves le_rfl
  have same : (h.advance v (h.term v)).term v = h.term v := by simp
  refine ⟨moves, valid.advance le_rfl, ?_⟩
  exact {
    id := tracks.id
    term := by
      rw [same]
      exact tracks.term
    vote := by
      rw [same]
      exact tracks.vote
    membership := tracks.membership
    log := tracks.log
    stands := fun candidate => nomatch (candidate : Role.follower = .candidate)
    leads := fun leader => nomatch (leader : Role.follower = .leader)
    boundary := by
      rw [same]
      exact tracks.boundary.mono moves.keeps le_rfl
    applied := tracks.applied
    committed := tracks.committed
    commit := fun commits => by
      rw [same]
      exact ⟨(tracks.commit commits).1, (tracks.commit commits).2.mono moves.keeps le_rfl⟩
    synced := tracks.synced
    stored := by
      rw [same]
      exact tracks.stored.mono moves.keeps }

/-- What an `InstallSnapshot` call leaves to be finished. -/
def InstallResult.Sound (cluster : Cluster) (regime : Regime) (h : History) (v : NodeID) :
    InstallResult → Prop
  | .replied _ => True
  | .pending install => install.Sound cluster regime h v

theorem persistInstall_follows {args : InstallSnapshotArgs} (current : args.term = h.term v)
    (sound : args.Sound cluster regime h) (works : fault.Works) :
    (node.persistInstall args fault).Follows cluster regime h v
      (fun later _ result => result.Sound cluster regime later v ∧ args.Sound cluster regime later) := by
  obtain ⟨moves, validLater, follower⟩ := tracks.follow valid args.leaderID
  have soundLater := sound.mono moves.keeps
  unfold persistInstall
  dsimp only
  split
  · exact ⟨_, moves, validLater, follower, trivial, soundLater⟩
  · rename_i further
    split
    · exact ⟨_, moves, validLater, follower, trivial, soundLater⟩
    · have known : SnapshotSound cluster (h.advance v (h.term v)) ((h.advance v (h.term v)).term v)
          args.snapshot.lastIncludedIndex args.snapshot.lastIncludedTerm := by
        simp only [Ledger.advance_term, Function.update_self]
        rw [← current]
        exact soundLater.2
      rcases follower.saveSnapshot sound.1 (Nat.le_of_not_le further) known works with
        ⟨saved, savedTracks⟩ | ⟨wal, crashed, lost⟩
      · rw [show node.storage = ({ node with role := .follower, leaderID := args.leaderID } :
          RaftNode).storage from rfl, saved]
        refine ⟨_, moves, validLater, savedTracks, ⟨soundLater, ?_, ?_⟩, soundLater⟩
        · simp [current]
        · intro stands
          simp at stands
      · rw [show node.storage = ({ node with role := .follower, leaderID := args.leaderID } :
          RaftNode).storage from rfl, crashed]
        exact ⟨_, moves, validLater, lost⟩

theorem installSnapshot_follows {args : InstallSnapshotArgs} {termFault saveFault : Fault}
    (sound : args.Sound cluster regime h) (works : termFault.Works) (worksToo : saveFault.Works) :
    (node.installSnapshot args termFault saveFault).Follows cluster regime h v
      (fun later _ result => result.Sound cluster regime later v ∧ args.Sound cluster regime later) := by
  have term := tracks.term
  unfold installSnapshot
  split
  · exact Outcome.follows_done valid tracks ⟨trivial, sound⟩
  · split
    · rename_i ahead
      apply (enterTerm_follows tracks valid (Or.inl ahead) works).andThen
      intro later after durable moves validLater tracksLater entered
      rw [if_pos entered.1]
      exact persistInstall_follows tracksLater validLater entered.2.1.symm (sound.mono moves.keeps) worksToo
    · exact persistInstall_follows tracks valid (by omega) sound worksToo

/-- The log takes a stored snapshot whose index it has not passed. -/
theorem Tracks.restoreSnapshot_ok {snapshot : Snapshot} {bound : ℕ}
    (above : node.log.lastIncludedIndex ≤ snapshot.lastIncludedIndex)
    (sound : SnapshotSound cluster h bound snapshot.lastIncludedIndex snapshot.lastIncludedTerm) :
    ∃ log, node.log.restoreSnapshot snapshot = .ok log := by
  rcases Nat.lt_or_eq_of_le above with ahead | same
  · exact ⟨_, Log.restoreSnapshot_ok ahead⟩
  · have term : termAt (h.log v) node.log.lastIncludedIndex = snapshot.lastIncludedTerm := by
      rw [← termAt_take le_rfl]
      apply valid.termAt_secured tracks.boundary
      · rw [List.length_take, Nat.min_eq_left tracks.log.inside]
      · exact same ▸ sound
    unfold Log.restoreSnapshot
    rw [dif_neg (by omega), dif_pos same.symm, if_neg]
    · exact ⟨_, rfl⟩
    · rw [not_not, ← term, tracks.log.term]

/-- The node has taken over a committed prefix from a snapshot. -/
theorem Tracks.install {snapshot : Snapshot} {bound t i : ℕ} {log : Log} {wal : WALStorage}
    (compacts : regime.compacts) (reached : bound ≤ h.term v) (behind : h.stands v → bound < h.term v)
    (committed : h.Committed cluster.Quorum t i) (early : t ≤ bound)
    (short : snapshot.lastIncludedIndex ≤ i) (positive : 0 < snapshot.lastIncludedIndex)
    (length : ((h.led t).take snapshot.lastIncludedIndex).length = snapshot.lastIncludedIndex)
    (term : termAt ((h.led t).take snapshot.lastIncludedIndex) snapshot.lastIncludedIndex =
      snapshot.lastIncludedTerm)
    (above : node.log.lastIncludedIndex ≤ snapshot.lastIncludedIndex)
    (restored : node.log.restoreSnapshot snapshot = .ok log)
    (compacted : node.storage.compact snapshot = .ok wal) :
    RaftNode.Tracks cluster regime (h.install v t snapshot.lastIncludedIndex) v
      { node with
        storage := wal
        log := log
        commitIndex := max node.commitIndex snapshot.lastIncludedIndex
        lastApplied := max node.lastApplied snapshot.lastIncludedIndex } := by
  have moves : h.Moves v (h.install v t snapshot.lastIncludedIndex) :=
    Ledger.install_moves valid.sound cluster.quorum_intersects committed short
      (early.trans reached) fun stands => early.trans_lt (behind stands)
  generalize front : (h.led t).take snapshot.lastIncludedIndex = incoming at *
  have securedFront : h.Secured cluster.Quorum (h.term v) incoming :=
    Or.inr ⟨t, i, committed, early.trans reached, by omega, front ▸ List.take_prefix _ _⟩
  have rootedFront := securedFront.rooted valid.sound
  have numbered := valid.rooted_numbered rootedFront
  obtain ⟨boundary, _, either⟩ := tracks.log.restoreSnapshot numbered length (length.symm ▸ term) restored
  have merged : (h.install v t snapshot.lastIncludedIndex).log v = Ledger.merge (h.log v) incoming := by
    simp [front]
  have views := merge_of_restored (valid.sound.log_rooted v) rootedFront length term either
  have inside : incoming <+: Ledger.merge (h.log v) incoming := Ledger.prefix_merge _ _
  have taken : (Ledger.merge (h.log v) incoming).take snapshot.lastIncludedIndex = incoming := by
    rw [take_eq_of_front inside length.ge, ← length, List.take_length]
  have longEnough : snapshot.lastIncludedIndex ≤ (Ledger.merge (h.log v) incoming).length :=
    length ▸ inside.length_le
  have sound : SnapshotSound cluster h (h.term v) snapshot.lastIncludedIndex snapshot.lastIncludedTerm :=
    ⟨incoming, securedFront, positive, length, term⟩
  obtain ⟨state, entries, saved, synced, _⟩ := WALStorage.compact_ok compacted
  exact {
    id := tracks.id
    term := tracks.term
    vote := tracks.vote
    membership := tracks.membership
    log := merged ▸ views
    stands := fun candidate => ⟨(tracks.stands candidate).stands, (tracks.stands candidate).vacant,
      (tracks.stands candidate).votes⟩
    leads := fun leader => by
      have leading := tracks.leads leader
      have known : incoming <+: h.log v := by
        rw [tracks.leader_log valid leader]
        exact securedFront.inside_led valid.sound cluster.quorum_intersects le_rfl
          (by simp [tracks.leader_eq valid leader])
      refine ⟨leading.leads, leading.own, ?_, leading.matched⟩
      rw [merged, Ledger.merge_of_front known]
      exact leading.bounded
    boundary := by
      change Ledger.Secured _ _ _ (List.take log.lastIncludedIndex _)
      rw [boundary, merged, taken]
      exact securedFront.mono moves.keeps le_rfl
    applied := boundary.trans_le (Nat.le_max_right _ _)
    committed := boundary.trans_le (Nat.le_max_right _ _)
    commit := fun commits => by
      obtain ⟨within, secured⟩ := tracks.commit commits
      change max node.commitIndex snapshot.lastIncludedIndex ≤ _ ∧
        Ledger.Secured _ _ _ (List.take (max node.commitIndex snapshot.lastIncludedIndex) _)
      rw [merged]
      rcases Nat.le_total node.commitIndex snapshot.lastIncludedIndex with below | beyond
      · rw [Nat.max_eq_right below, taken]
        exact ⟨longEnough, securedFront.mono moves.keeps le_rfl⟩
      · have known : incoming <+: h.log v := by
          rcases secured.comparable valid.sound cluster.quorum_intersects securedFront with
            shorter | longer
          · have same : (h.log v).take node.commitIndex = incoming := by
              apply shorter.eq_of_length_le
              rw [List.length_take]
              omega
            exact same ▸ List.take_prefix _ _
          · exact longer.trans (List.take_prefix _ _)
        rw [Nat.max_eq_left beyond, Ledger.merge_of_front known]
        exact ⟨within, secured.mono moves.keeps le_rfl⟩
    synced := synced
    stored := by
      change Stored _ _ _ _ _ _ _ log.lastIncludedIndex _
      rw [boundary, merged]
      refine Stored.mono (tracks.stored.compacted compacts state saved sound ?_) moves.keeps
      rw [entries]
      rcases Ledger.merge_cases (h.log v) incoming with kept | replaced
      · rw [kept] at longEnough ⊢
        exact tracks.stored.entries.compact tracks.log.numbered above positive longEnough
      · rw [replaced]
        exact EntriesKept.compact_at_end length positive _ }

theorem finishInstall_follows {install : PendingInstall} (sound : install.Sound cluster regime h v)
    (works : fault.Works) :
    (node.finishInstall install fault).Follows cluster regime h v
      (fun later _ _ => install.args.Sound cluster regime later) := by
  obtain ⟨⟨compacts, snapshotSound⟩, reached, behind⟩ := sound
  unfold finishInstall
  dsimp only
  rcases WALStorage.compactDurably_works works with ⟨error, failed⟩ | ⟨compacted, done, finished | crashed⟩
  · rw [failed]
    exact Outcome.follows_done valid tracks ⟨compacts, snapshotSound⟩
  · rw [finished]
    dsimp only
    obtain ⟨_, _, _, _, _, stored, found, sameIndex, _⟩ := WALStorage.compact_ok done
    have above : node.log.lastIncludedIndex ≤ install.args.snapshot.lastIncludedIndex := by
      rw [← sameIndex]
      exact (tracks.stored.snapshot stored found).2.1
    obtain ⟨log, restored⟩ := tracks.restoreSnapshot_ok valid above snapshotSound
    obtain ⟨t, i, committed, early, short, positive, length, term, _⟩ := snapshotSound.committed
    rw [restored]
    have moves : h.Moves v (h.install v t install.args.snapshot.lastIncludedIndex) :=
      Ledger.install_moves valid.sound cluster.quorum_intersects committed short
        (early.trans reached) fun stands => early.trans_lt (behind stands)
    exact ⟨_, moves, valid.install committed short (early.trans reached)
      fun stands => early.trans_lt (behind stands),
      tracks.install valid compacts reached behind committed early short positive length term above restored
        done, compacts, snapshotSound.mono moves.keeps le_rfl⟩
  · rw [crashed]
    exact ⟨h, .refl h v, valid, tracks.survives⟩

omit valid in
theorem buildInstallSnapshot_sound {peerID : NodeID} {args : InstallSnapshotArgs}
    (built : node.buildInstallSnapshot peerID = some args) : args.Sound cluster regime h := by
  unfold buildInstallSnapshot at built
  split at built
  · simp at built
  · split at built
    · simp at built
    · cases found : node.storage.contents.snapshot with
      | none => simp [Contents.loadSnapshot, found] at built
      | some snapshot =>
          have loaded : node.storage.contents.loadSnapshot = snapshot := by
            simp [Contents.loadSnapshot, found]
          simp only [loaded, Option.ite_none_left_eq_some, Option.some.injEq] at built
          obtain ⟨_, _, rfl⟩ := built
          obtain ⟨compacts, _, sound⟩ := tracks.stored.snapshot snapshot found
          exact ⟨compacts, tracks.term ▸ sound⟩

theorem recordInstalled_tracks (peerID : NodeID) {index term : ℕ} (leader : node.role = .leader)
    (sound : SnapshotSound cluster h (h.term v) index term) :
    (node.recordInstalled peerID index).Tracks cluster regime h v := by
  obtain ⟨front, secured, _, length, _⟩ := sound
  have leads : (h.leader (h.term v)).isSome := by simp [tracks.leader_eq valid leader]
  have inside := secured.inside_led valid.sound cluster.quorum_intersects le_rfl leads
  rw [← tracks.leader_log valid leader] at inside
  apply tracks.withMatch
  intro _ other peer
  rcases Decidable.eq_or_ne other peerID with rfl | different
  · rw [Function.update_self]
    refine Or.inr ⟨Nat.max_le.mpr ⟨(tracks.leads leader).bounded other peer, length ▸ inside.length_le⟩, ?_⟩
    intro i reached marks
    rcases le_max_iff.mp reached with known | installed
    · exact (tracks.leads leader).matched other peer i known marks
    · exact Or.inr (secured.committed_of_marks valid.sound cluster.quorum_intersects leads marks
        (installed.trans_eq length.symm))
  · exact Or.inl (Function.update_of_ne different _ _)

theorem handleInstallSnapshotReply_follows {peerID : NodeID} {args : InstallSnapshotArgs}
    {reply : InstallSnapshotReply} (sound : args.Sound cluster regime h) (works : fault.Works) :
    (node.handleInstallSnapshotReply peerID args reply fault).Follows cluster regime h v
      (fun later after _ => ∀ observation ∈ Process.observeCommit node after,
        observation.Sound cluster regime later v) := by
  have unseen : ∀ after : RaftNode, after.commitIndex = node.commitIndex → ∀ (later : History),
      ∀ observation ∈ Process.observeCommit node after, observation.Sound cluster regime later v := by
    intro after same later
    simp [Process.observeCommit, same]
  unfold handleInstallSnapshotReply
  split
  · rename_i ahead
    apply (enterTerm_follows tracks valid (Or.inl ahead) works).andThen
    intro later after durable _ validLater tracksLater entered
    exact Outcome.follows_done validLater tracksLater (unseen _ entered.2.2.2.2.2 _)
  · split
    · exact Outcome.follows_done valid tracks (unseen _ rfl _)
    · rename_i role
      split
      · exact Outcome.follows_done valid tracks (unseen _ rfl _)
      · rename_i current
        split
        · exact Outcome.follows_done valid tracks (unseen _ rfl _)
        · have sameTerm : args.term = h.term v := by
            rw [← tracks.term]
            exact not_not.mp current
          have recorded := recordInstalled_tracks tracks valid peerID (not_not.mp role)
            (sameTerm ▸ sound.2)
          exact Outcome.follows_done valid (advanceCommitIndexLocked_tracks recorded valid)
            (observeCommit_sound recorded valid rfl)

end RaftNode

end Raftiq
