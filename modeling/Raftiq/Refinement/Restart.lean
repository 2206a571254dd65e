import Raftiq.Refinement.Snapshot
import Raftiq.Raft.Restart

namespace Raftiq

open Consensus

variable {cluster : Cluster} {regime : Regime} {h : History} {v : NodeID} {term boundary : ℕ}
  {vote : Option NodeID} {log : List LogEntry} {contents : Contents}

/-- The stored entry at the index of the stored snapshot, if any, is the one the snapshot ends with. -/
def Contents.SnapshotAgrees (contents : Contents) : Prop :=
  contents.loadSnapshot.lastIncludedIndex = 0 ∨
    contents.entries.length < contents.loadSnapshot.lastIncludedIndex ∨
    termAt contents.entries contents.loadSnapshot.lastIncludedIndex = contents.loadSnapshot.lastIncludedTerm

instance (contents : Contents) : Decidable contents.SnapshotAgrees :=
  inferInstanceAs (Decidable (_ ∨ _ ∨ _))

/-- A promised step can still be made. -/
theorem Promise.keep (promise : Promise h v term vote log) (valid : cluster.Valid h) :
    ∃ later : History, h.Moves v later ∧ cluster.Valid later ∧ later.term v = term ∧
      later.voted v term = vote ∧ later.log v = log := by
  cases promise with
  | nothing => exact ⟨h, .refl h v, valid, rfl, rfl, rfl⟩
  | enter _ ahead =>
      refine ⟨h.advance v term, Ledger.advance_moves ahead.le, valid.advance ahead.le, by simp, ?_, rfl⟩
      cases voted : h.voted v term with
      | none => exact voted
      | some c =>
          have bound := valid.sound.voted_bounded v term c voted
          omega
  | stand =>
      have ahead : h.term v < h.term v + 1 := Nat.lt_succ_self _
      exact ⟨h.stand v (h.term v + 1), Ledger.stand_moves valid.sound ahead, valid.stand ahead, by simp,
        by simp, rfl⟩
  | vote c shown fresh advertised upToDate =>
      exact ⟨h.vote v c, Ledger.vote_moves fresh, valid.vote fresh advertised upToDate, rfl, by simp, rfl⟩
  | propose entry leads own next command =>
      exact ⟨h.propose v entry, Ledger.propose_moves valid.sound leads own,
        valid.propose leads own next command, rfl, rfl, by simp⟩
  | accept m leads short =>
      exact ⟨h.accept v (h.term v) m, Ledger.accept_moves le_rfl short, valid.accept leads le_rfl short,
        by simp, rfl, by simp⟩

/-- The stored entries are this log, or the stored snapshot covers both. -/
def Contents.Covers (contents : Contents) (full : List LogEntry) : Prop :=
  contents.entries = full ∨ contents.entries.length < contents.loadSnapshot.lastIncludedIndex ∧
    full.length ≤ contents.loadSnapshot.lastIncludedIndex

/-- What is stored covers the log, or a longer one that the node had been sent. -/
theorem Stored.covers (stored : Stored cluster regime h v (h.term v) vote (h.log v) boundary contents)
    (valid : cluster.Valid h) (numbered : Numbered 0 contents.entries) :
    ∃ full, contents.Covers full ∧ h.log v <+: full ∧ h.Rooted full ∧
      ∀ entry ∈ full, entry.term ≤ h.term v := by
  have known : contents.Covers (h.log v) → ∃ full, contents.Covers full ∧ h.log v <+: full ∧ h.Rooted full ∧
      ∀ entry ∈ full, entry.term ≤ h.term v := fun covers =>
    ⟨h.log v, covers, List.prefix_refl _, valid.sound.log_rooted v, valid.sound.log_bounded v⟩
  have below : boundary ≤ contents.loadSnapshot.lastIncludedIndex := by
    cases found : contents.snapshot with
    | none => simp [stored.missing found]
    | some snapshot =>
        simp only [Contents.loadSnapshot, found, Option.getD_some]
        exact (stored.snapshot snapshot found).2.1
  cases stored.entries with
  | whole same => exact known (Or.inl same)
  | tight above =>
      apply known
      cases Nat.eq_zero_or_pos boundary with
      | inl zero => exact Or.inl (by rw [above, zero, List.drop_zero])
      | inr positive =>
          -- what follows a boundary does not begin at index one
          have short : (h.log v).length ≤ boundary := by
            by_contra long
            have tail := (valid.rooted_numbered (valid.sound.log_rooted v)).drop boundary (by omega)
            rw [← above] at tail
            cases entries : contents.entries with
            | nil =>
                rw [entries] at above
                exact long (List.drop_eq_nil_iff.mp above.symm)
            | cons first rest =>
                rw [entries] at tail numbered
                have one := numbered.1
                have next := tail.1
                omega
          refine Or.inr ⟨?_, by omega⟩
          rw [above, List.drop_eq_nil_of_le short, List.length_nil]
          omega
  | stuck length positive blocked recoverable =>
      rcases recoverable numbered with short | ⟨rooted, bounded, inside⟩
      · exact known (Or.inr ⟨by omega, by omega⟩)
      · exact ⟨contents.entries, Or.inl rfl, inside, rooted, bounded⟩

/-- The stored snapshot becomes the boundary. -/
theorem Stored.atSnapshot (stored : Stored cluster regime h v term vote log boundary contents)
    {full : List LogEntry}
    (kept : EntriesKept h term full contents.loadSnapshot.lastIncludedIndex contents.entries) :
    Stored cluster regime h v term vote full contents.loadSnapshot.lastIncludedIndex contents :=
  { stored with
    missing := fun missing => by simp [Contents.loadSnapshot, missing]
    snapshot := fun snapshot found => by
      obtain ⟨compacts, _, sound⟩ := stored.snapshot snapshot found
      exact ⟨compacts, by simp [Contents.loadSnapshot, found], sound⟩
    entries := kept }

/-- Entries that end below the boundary are of no more use. -/
theorem EntriesKept.below_end {entries : List LogEntry} (length : log.length = boundary)
    (numbered : Numbered 0 entries) (short : entries.length < boundary) :
    EntriesKept h term log boundary entries := by
  cases ends : entries.getLast? with
  | none =>
      rw [List.getLast?_eq_none_iff.mp ends]
      exact .tight (List.drop_eq_nil_iff.mpr length.le).symm
  | some last =>
      have index := numbered.getLast?_index ends
      have nonempty : entries ≠ [] := fun empty => by simp [empty] at ends
      have positive := List.length_pos_iff.mpr nonempty
      exact .stuck length (by omega) ⟨last, ends, by omega, by omega⟩ fun _ => Or.inl short

/-- A recovered log shows the stored entries or the committed prefix of the snapshot. -/
theorem RaftNode.restoreLog_views {log : Log} (restored : restoreLog contents = .ok log)
    (front : List LogEntry) (numbered : Numbered 0 front)
    (length : front.length = contents.loadSnapshot.lastIncludedIndex)
    (term : 0 < front.length → termAt front front.length = contents.loadSnapshot.lastIncludedTerm) :
    log.lastIncludedIndex = contents.loadSnapshot.lastIncludedIndex ∧
      (log.Views contents.entries ∧ (front.length = 0 ∨ front.length ≤ contents.entries.length ∧
          termAt contents.entries front.length = contents.loadSnapshot.lastIncludedTerm) ∨
        log.Views front ∧ 0 < front.length ∧ (contents.entries.length < front.length ∨
          termAt contents.entries front.length ≠ contents.loadSnapshot.lastIncludedTerm)) := by
  unfold restoreLog at restored
  split at restored
  · simp at restored
  · rename_i whole appended
    obtain ⟨views, zero⟩ := appendAll_views appended
    split at restored
    · rename_i positive
      split at restored
      · simp at restored
      · rename_i after shortened
        cases restored
        obtain ⟨boundary, _, either⟩ := views.restoreSnapshot numbered length (term (by omega)) shortened
        rw [length]
        rcases either with ⟨kept, agrees⟩ | ⟨dropped, _, differs⟩
        · exact ⟨boundary, Or.inl ⟨kept, Or.inr agrees⟩⟩
        · exact ⟨boundary, Or.inr ⟨dropped, positive, differs⟩⟩
    · rename_i none
      cases restored
      exact ⟨by omega, Or.inl ⟨views, Or.inl (by omega)⟩⟩

namespace Cluster

variable {wal : WALStorage} {process : Process}

/-- A new node is a follower that knows its log and nothing else. -/
theorem boot_tracks {restored : Log} {full : List LogEntry} (booted : cluster.boot v wal = .ok process)
    (synced : wal.synced = wal.file.length) (found : RaftNode.restoreLog wal.contents = .ok restored)
    (views : restored.Views (h.log v))
    (index : restored.lastIncludedIndex = wal.contents.loadSnapshot.lastIncludedIndex)
    (secured : h.Secured cluster.Quorum (h.term v)
      ((h.log v).take wal.contents.loadSnapshot.lastIncludedIndex))
    (stored : Stored cluster regime h v (h.term v) (h.voted v (h.term v)) full boundary wal.contents)
    (kept : EntriesKept h (h.term v) (h.log v) wal.contents.loadSnapshot.lastIncludedIndex
      wal.contents.entries) : process.Tracks cluster regime h v := by
  obtain ⟨log, same, rfl⟩ := boot_ok booted
  rw [found] at same
  cases same
  refine ⟨?_, fun _ _ _ picked => (nomatch picked), fun _ pending => (nomatch pending),
    fun _ _ _ pending => (nomatch pending)⟩
  exact {
    id := rfl
    term := stored.sameTerm
    vote := stored.sameVote
    membership := stored.membership
    log := views
    stands := fun candidate => nomatch (candidate : Role.follower = .candidate)
    leads := fun leader => nomatch (leader : Role.follower = .leader)
    boundary := index.symm ▸ secured
    applied := index.le
    committed := index.le
    commit := fun _ => ⟨index ▸ views.inside, secured⟩
    synced := synced
    stored := index.symm ▸ stored.atSnapshot kept }

/-- A node restarts with the log that its storage covers. -/
theorem boot_covered {full : List LogEntry} (valid : cluster.Valid h)
    (stored : Stored cluster regime h v (h.term v) (h.voted v (h.term v)) full boundary wal.contents)
    (covers : wal.contents.Covers (h.log v)) (resting : ¬ h.stands v) (synced : wal.synced = wal.file.length)
    (booted : cluster.boot v wal = .ok process) (agrees : wal.contents.SnapshotAgrees) :
    ∃ later : History, h.Moves v later ∧ cluster.Valid later ∧ process.Tracks cluster regime later v := by
  obtain ⟨restored, found, _⟩ := boot_ok booted
  have numbered := RaftNode.restoreLog_ok_iff.mp ⟨restored, found⟩
  cases saved : wal.contents.snapshot with
  | none =>
      have none : wal.contents.loadSnapshot.lastIncludedIndex = 0 := by
        simp [Contents.loadSnapshot, saved]
      have same : wal.contents.entries = h.log v := by
        rcases covers with same | ⟨short, _⟩
        · exact same
        · omega
      obtain ⟨index, shows⟩ := RaftNode.restoreLog_views found [] trivial none.symm fun positive => by
        simp at positive
      have views : restored.Views (h.log v) := by
        rcases shows with ⟨views, _⟩ | ⟨_, positive, _⟩
        · exact same ▸ views
        · simp at positive
      refine ⟨h, .refl h v, valid, boot_tracks booted synced found views index ?_ stored (.whole same)⟩
      rw [none, List.take_zero]
      exact Ledger.Secured.nil
  | some snapshot =>
      have loaded : wal.contents.loadSnapshot = snapshot := by
        simp [Contents.loadSnapshot, saved]
      obtain ⟨_, _, sound⟩ := stored.snapshot snapshot saved
      obtain ⟨t, i, committed, early, short, positive, length, term, secured⟩ := sound.committed
      rw [← loaded] at *
      have rootedFront := secured.rooted valid.sound
      obtain ⟨index, shows⟩ := RaftNode.restoreLog_views found _ (valid.rooted_numbered rootedFront) length
        fun _ => length.symm ▸ term
      rw [length] at shows
      rcases shows with ⟨views, reached⟩ | ⟨views, _, beyond⟩
      · obtain ⟨within, sameTerm⟩ : _ ∧ _ := reached.resolve_left (by omega)
        have same : wal.contents.entries = h.log v := covers.resolve_right (by omega)
        rw [same] at views within sameTerm
        have front := take_eq_of_termAt (valid.sound.log_rooted v) rootedFront within length.ge
          (sameTerm.trans term.symm)
        refine ⟨h, .refl h v, valid, boot_tracks booted synced found views index ?_ stored (.whole same)⟩
        rw [front, List.take_of_length_le length.le]
        exact secured
      · have below : wal.contents.entries.length < wal.contents.loadSnapshot.lastIncludedIndex := by
          rcases beyond with below | differs
          · exact below
          · exact (agrees.resolve_left (by omega)).resolve_right differs
        have covered : (h.log v).length ≤ wal.contents.loadSnapshot.lastIncludedIndex := by
          rcases covers with same | ⟨_, covered⟩
          · exact same ▸ below.le
          · exact covered
        have moves := Ledger.install_moves (v := v) valid.sound cluster.quorum_intersects committed short
          early fun stands => absurd stands resting
        have log : (h.install v t wal.contents.loadSnapshot.lastIncludedIndex).log v =
            (h.led t).take wal.contents.loadSnapshot.lastIncludedIndex := by
          rw [Ledger.install_log, Function.update_self]
          exact Ledger.merge_of_length_le (covered.trans length.ge)
        refine ⟨_, moves, valid.install committed short early fun stands => absurd stands resting,
          boot_tracks booted synced found (log.symm ▸ views) index ?_ (stored.mono moves.keeps) ?_⟩
        · rw [log, List.take_of_length_le length.le]
          exact secured.mono moves.keeps le_rfl
        · rw [log]
          exact EntriesKept.below_end length numbered below

/-- A node that restarts goes on from where it was, from a step it was about to make, or
from the snapshot it had saved. -/
theorem restart_tracks {reopened : WALStorage} {keep : ℕ} (valid : cluster.Valid h)
    (tracks : wal.Tracks cluster regime h v) (opened : wal.reopen keep = .ok reopened)
    (reads : wal.ReadsSynced keep) (booted : cluster.boot v reopened = .ok process) (agrees : reopened.contents.SnapshotAgrees) :
    ∃ later : History, h.Moves v later ∧ cluster.Valid later ∧ process.Tracks cluster regime later v := by
  obtain ⟨_, _, _, boundary, promise, promised⟩ := tracks _ (WALStorage.reopen_survives opened)
  obtain ⟨kept, moves, validKept, rfl, rfl, rfl⟩ := promise.keep valid
  have stored := promised.mono moves.keeps
  obtain ⟨restored, found, _⟩ := boot_ok booted
  obtain ⟨full, covers, inside, rooted, bounded⟩ := stored.covers validKept
    (RaftNode.restoreLog_ok_iff.mp ⟨restored, found⟩)
  have onward : kept.Moves v (kept.resume v full) := Ledger.resume_moves inside
  have log : (kept.resume v full).log v = full := by simp
  obtain ⟨later, further, validLater, running⟩ := boot_covered (validKept.resume inside rooted bounded)
    (stored.mono onward.keeps) (log.symm ▸ covers) (by simp) (reads.synced_eq opened) booted agrees
  exact ⟨later, (moves.trans onward).trans further, validLater, running⟩

end Cluster

end Raftiq
