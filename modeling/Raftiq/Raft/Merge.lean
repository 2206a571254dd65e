import Raftiq.Raft.StoredLog
import Raftiq.Storage.Memory

namespace Raftiq

/-- The log has an entry of this index and term. -/
def Log.Holds (log : Log) (entry : LogEntry) : Prop :=
  ∃ existing, log.get entry.index = some existing ∧ existing.term = entry.term

instance (log : Log) (entry : LogEntry) : Decidable (log.Holds entry) :=
  decidable_of_iff ((log.get entry.index).any (·.term = entry.term)) (by
    simp [Log.Holds, Option.any_eq_true])

namespace RaftNode

variable {node after : RaftNode} {log next : Log} {entries front rest : List LogEntry} {first : LogEntry}
  {fault : Fault}

/-- The search skips what the log holds. -/
theorem firstNew_append (held : ∀ entry ∈ front, log.Holds entry) (rest : List LogEntry) :
    firstNew log (front ++ rest) = firstNew log rest := by
  induction front with
  | nil => rfl
  | cons entry others ih =>
      obtain ⟨existing, found, same⟩ := held entry List.mem_cons_self
      have following := ih fun other member => held other (List.mem_cons_of_mem _ member)
      rw [List.cons_append, firstNew, found]
      dsimp only
      rw [if_neg (not_not.mpr same), following]

theorem firstNew_nothing (held : ∀ entry ∈ entries, log.Holds entry) : firstNew log entries = .nothing := by
  have skipped := firstNew_append held []
  rw [List.append_nil] at skipped
  exact skipped

/-- It stops at the first entry that the log does not hold. -/
theorem firstNew_split (held : ∀ entry ∈ front, log.Holds entry) (new : ¬ log.Holds first)
    (rest : List LogEntry) :
    firstNew log (front ++ first :: rest) = .missing (first :: rest) ∧ log.get first.index = none ∨
      firstNew log (front ++ first :: rest) = .conflict first.index (first :: rest) ∧
        ∃ existing, log.get first.index = some existing := by
  rw [firstNew_append held, firstNew]
  cases found : log.get first.index with
  | none => exact Or.inl ⟨rfl, rfl⟩
  | some existing =>
      have differ : existing.term ≠ first.term := fun same => new ⟨existing, found, same⟩
      dsimp only
      rw [if_pos differ]
      exact Or.inr ⟨rfl, existing, rfl⟩

/-- A loop that comes to its end has taken every entry. -/
theorem appendEach_done (done : appendEach log entries = (next, .ok ())) :
    next.entries = log.entries ++ entries ∧ next.lastIncludedIndex = log.lastIncludedIndex ∧
      next.lastIncludedTerm = log.lastIncludedTerm ∧ Numbered log.lastIndex entries := by
  induction entries generalizing log with
  | nil =>
      cases done
      exact ⟨(List.append_nil _).symm, rfl, rfl, trivial⟩
  | cons entry others ih =>
      rcases log.append_cases entry with ⟨grown, appended, index, all, boundary, term, last⟩ | ⟨_, refused⟩
      · simp only [appendEach, appended] at done
        obtain ⟨each, boundaryToo, termToo, numbered⟩ := ih done
        refine ⟨?_, boundaryToo.trans boundary, termToo.trans term, index, last ▸ numbered⟩
        rw [each, all, List.append_assoc, List.singleton_append]
      · simp [appendEach, refused] at done

theorem publishEntries_ok (done : node.publishEntries log entries = .done after (.ok ())) :
    after.log.entries = log.entries ++ entries ∧ after.log.lastIncludedIndex = log.lastIncludedIndex ∧
      after.log.lastIncludedTerm = log.lastIncludedTerm ∧ after.storage = node.storage ∧
      Numbered log.lastIndex entries := by
  unfold publishEntries at done
  split at done
  · rename_i grown each
    cases done
    obtain ⟨all, boundary, term, numbered⟩ := appendEach_done each
    exact ⟨all, boundary, term, rfl, numbered⟩
  · cases done

/-- A write that succeeds has been accepted and synced. -/
theorem writeSync_ok {wal saved : WALStorage} {write : WALStorage → Except StorageError WALStorage}
    (done : wal.writeSync write fault = .ok saved) :
    ∃ written, write wal = .ok written ∧ saved = written.sync := by
  unfold WALStorage.writeSync at done
  split at done
  · cases done
  · rename_i written accepted
    cases fault with
    | none =>
        cases done
        exact ⟨written, accepted, rfl⟩
    | writeFails | syncFails | diskFull | crash => cases done

/-- What the reconciliation asks of a storage that keeps everything in memory. -/
def reconcileMemory (log : Log) (entries : List LogEntry) (memory : MemoryStorage) :
    MemoryStorage × Option StorageError :=
  match firstNew log entries with
  | .nothing => (memory, none)
  | .missing newEntries => memory.appendEntries newEntries
  | .conflict replaceFrom newEntries => memory.replaceSuffix replaceFrom newEntries

/-- The storages and the log have become the old entries below the index, followed by the new ones. -/
structure Merges (node : RaftNode) (start : ℕ) (new : List LogEntry) (after : RaftNode) : Prop where
  log : after.log.entries = node.log.entries.filter (·.index < start) ++ new
  boundary : after.log.lastIncludedIndex = node.log.lastIncludedIndex
  boundaryTerm : after.log.lastIncludedTerm = node.log.lastIncludedTerm
  stores : after.StoresLog

theorem merges_missing {new : List LogEntry} (stores : node.StoresLog) (nonempty : new = first :: rest)
    {saved : WALStorage} (written : node.storage.writeSync (WALStorage.appendEntries new) fault = .ok saved)
    (done : { node with storage := saved }.publishEntries node.log new = .done after (.ok ())) :
    node.Merges first.index new after ∧ ∀ memory : MemoryStorage, memory.entries = node.log.entries →
      memory.appendEntries new = ({ memory with entries := after.log.entries }, none) := by
  obtain ⟨accepted, accepts, synced⟩ := writeSync_ok written
  obtain ⟨rfl, valid, follows⟩ := (WALStorage.appendEntries_iff (nonempty ▸ List.cons_ne_nil _ _)).mp accepts
  obtain ⟨all, boundary, term, storage, numbered⟩ := publishEntries_ok done
  have index : first.index = node.log.lastIndex + 1 := (nonempty ▸ numbered).1
  have whole : node.log.entries.filter (·.index < first.index) = node.log.entries := by
    refine List.filter_eq_self.mpr fun entry member => ?_
    have bounds := node.log.numbered.mem_index member
    rw [node.log.lastIndex_eq] at index
    simp only [decide_eq_true_eq]
    omega
  refine ⟨⟨by rw [all, whole], boundary, term, ?_⟩, fun memory same => ?_⟩
  · change after.storage.contents.entries = _
    rw [storage, all, synced]
    exact congrArg (· ++ new) stores
  · unfold MemoryStorage.appendEntries
    rw [stores] at follows
    rw [if_neg (by simp [nonempty]), valid, same, follows, all]

theorem merges_conflict {new : List LogEntry} {start : ℕ} (stores : node.StoresLog)
    (above : node.log.lastIncludedIndex < start) {saved : WALStorage}
    (written : node.storage.writeSync (WALStorage.replaceSuffix start new) fault = .ok saved)
    (done : { node with storage := saved }.publishEntries (node.log.truncateFrom start) new =
      .done after (.ok ())) :
    node.Merges start new after ∧ ∀ memory : MemoryStorage, memory.entries = node.log.entries →
      memory.snapshot = node.storage.contents.snapshot →
      memory.replaceSuffix start new = ({ memory with entries := after.log.entries }, none) := by
  obtain ⟨accepted, accepts, synced⟩ := writeSync_ok written
  obtain ⟨rfl, valid⟩ := WALStorage.replaceSuffix_iff.mp accepts
  obtain ⟨all, boundary, term, storage, _⟩ := publishEntries_ok done
  obtain ⟨kept, same⟩ := node.log.truncateFrom_above above
  have sameTerm : (node.log.truncateFrom start).lastIncludedTerm = node.log.lastIncludedTerm := by
    rw [Log.truncateFrom, if_neg (by omega), if_neg (by omega)]
  have below := node.log.numbered.filter_below start
  refine ⟨⟨by rw [all, kept, below], boundary.trans same, term.trans sameTerm, ?_⟩,
    fun memory sameEntries sameSnapshot => ?_⟩
  · change after.storage.contents.entries = _
    rw [storage, all, synced, kept]
    exact congrArg (replaceSuffixCopy · start new) stores
  · simp only [MemoryStorage.replaceSuffix, sameSnapshot, valid, MemoryStorage.kept_eq]
    rw [sameEntries, all, kept]

/-- What a reconciliation that succeeds has done. -/
theorem reconcile_ok (done : node.reconcileReplicatedEntriesLocked entries fault = .done after (.ok ())) :
    firstNew node.log entries = .nothing ∧ after = node ∨
    (∃ new saved, firstNew node.log entries = .missing new ∧
      node.storage.writeSync (WALStorage.appendEntries new) fault = .ok saved ∧
      { node with storage := saved }.publishEntries node.log new = .done after (.ok ())) ∨
    ∃ start new saved, firstNew node.log entries = .conflict start new ∧
      node.storage.writeSync (WALStorage.replaceSuffix start new) fault = .ok saved ∧
      { node with storage := saved }.publishEntries (node.log.truncateFrom start) new =
        .done after (.ok ()) := by
  unfold reconcileReplicatedEntriesLocked at done
  cases found : firstNew node.log entries with
  | nothing =>
      rw [found] at done
      cases done
      exact Or.inl ⟨rfl, rfl⟩
  | missing new =>
      rw [found] at done
      dsimp only at done
      split at done
      · cases done
      · cases done
      · rename_i saved written
        exact Or.inr (Or.inl ⟨new, saved, rfl, written, done⟩)
  | conflict start new =>
      rw [found] at done
      dsimp only at done
      split at done
      · cases done
      · cases done
      · rename_i saved written
        exact Or.inr (Or.inr ⟨start, new, saved, rfl, written, done⟩)

/-- A reconciliation that succeeds keeps the log and the storage if the log holds every entry,
and replaces what the log has from the first other entry on. -/
theorem reconciliation_merges_exactly (node after : RaftNode) (prevLogIndex : ℕ) (entries : List LogEntry)
    (fault : Fault) (stores : node.StoresLog) (above : node.log.lastIncludedIndex ≤ prevLogIndex)
    (numbered : Numbered prevLogIndex entries)
    (done : node.reconcileReplicatedEntriesLocked entries fault = .done after (.ok ())) :
    ((∀ entry ∈ entries, node.log.Holds entry) → after.log = node.log ∧ after.storage = node.storage) ∧
    (∀ front first rest, entries = front ++ first :: rest → (∀ entry ∈ front, node.log.Holds entry) →
      ¬ node.log.Holds first → node.Merges first.index (first :: rest) after) ∧
    ∀ memory : MemoryStorage, memory.entries = node.log.entries →
      memory.snapshot = node.storage.contents.snapshot →
      reconcileMemory node.log entries memory = ({ memory with entries := after.log.entries }, none) := by
  rcases reconcile_ok done with ⟨found, rfl⟩ | ⟨new, saved, found, written, published⟩ |
    ⟨start, new, saved, found, written, published⟩
  · refine ⟨fun _ => ⟨rfl, rfl⟩, fun front first rest split held new => ?_, fun memory same _ => ?_⟩
    · rw [split] at found
      rcases firstNew_split held new rest with ⟨other, _⟩ | ⟨other, _⟩ <;> cases found.symm.trans other
    · rw [reconcileMemory, found, ← same]
  · obtain ⟨head, others, nonempty, _⟩ := firstNew_missing found
    obtain ⟨merges, memory⟩ := merges_missing stores nonempty written published
    refine ⟨fun held => ?_, fun front first rest split held new => ?_, fun stored same _ => ?_⟩
    · cases found.symm.trans (firstNew_nothing held)
    · rw [split] at found
      rcases firstNew_split held new rest with ⟨other, _⟩ | ⟨other, _⟩
      · cases found.symm.trans other
        cases nonempty
        exact merges
      · cases found.symm.trans other
    · rw [reconcileMemory, found]
      exact memory stored same
  · obtain ⟨head, others, existing, nonempty, member, index, _⟩ := firstNew_conflict found
    have beyond := (numbered.mem_index member).1
    obtain ⟨merges, memory⟩ := merges_conflict stores (above.trans_lt (index ▸ beyond)) written published
    refine ⟨fun held => ?_, fun front first rest split held new => ?_, fun stored same sameSnapshot => ?_⟩
    · cases found.symm.trans (firstNew_nothing held)
    · rw [split] at found
      rcases firstNew_split held new rest with ⟨other, _⟩ | ⟨other, _⟩
      · cases found.symm.trans other
      · cases found.symm.trans other
        exact merges
    · rw [reconcileMemory, found]
      exact memory stored same sameSnapshot

/-- The second of three entries is replaced, and the third goes with it. -/
theorem conflicting_suffix_is_merged :
    ∃ node after : RaftNode, node.log.entries = [⟨1, 1, [7]⟩, ⟨2, 1, [8]⟩, ⟨3, 1, [9]⟩] ∧ node.StoresLog ∧
      node.reconcileReplicatedEntriesLocked [⟨1, 1, [7]⟩, ⟨2, 2, [5]⟩] .none = .done after (.ok ()) ∧
      after.log.entries = [⟨1, 1, [7]⟩, ⟨2, 2, [5]⟩] ∧ after.StoresLog := by
  have merges : ∃ start, newRaftNodeWithStorage "B" (Cluster.trio.bootstrapped "B") = .ok start ∧
      ∃ node, start.reconcileReplicatedEntriesLocked [⟨1, 1, [7]⟩, ⟨2, 1, [8]⟩, ⟨3, 1, [9]⟩] .none =
          .done node (.ok ()) ∧
        node.log.entries = [⟨1, 1, [7]⟩, ⟨2, 1, [8]⟩, ⟨3, 1, [9]⟩] ∧ node.StoresLog ∧
        node.log.lastIncludedIndex ≤ 0 ∧ node.log.Holds ⟨1, 1, [7]⟩ ∧ ¬ node.log.Holds ⟨2, 2, [5]⟩ ∧
        ∃ after, node.reconcileReplicatedEntriesLocked [⟨1, 1, [7]⟩, ⟨2, 2, [5]⟩] .none =
          .done after (.ok ()) :=
    ⟨_, rfl, _, rfl, rfl, rfl, le_rfl, by decide, by decide, _, rfl⟩
  obtain ⟨_, _, node, _, entries, stores, boundary, held, new, after, done⟩ := merges
  have merged := (reconciliation_merges_exactly node after 0 [⟨1, 1, [7]⟩, ⟨2, 2, [5]⟩] .none stores boundary
    (by decide) done).2.1 [⟨1, 1, [7]⟩] ⟨2, 2, [5]⟩ [] rfl (by simpa using held) new
  exact ⟨node, after, entries, stores, done, by rw [merged.log, entries]; rfl, merged.stores⟩

end RaftNode

end Raftiq
