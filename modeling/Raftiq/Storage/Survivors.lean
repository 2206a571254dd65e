import Raftiq.Storage.Validate

namespace Raftiq

namespace WALStorage

/-- The contents that a crash may leave behind. -/
def Survives (wal : WALStorage) (contents : Contents) : Prop :=
  ∃ keep, contents = replay Contents.empty (wal.file.take (max wal.synced keep))

variable {wal reopened compacted : WALStorage} {contents : Contents} {snapshot : Snapshot}

theorem survives_contents (wal : WALStorage) : wal.Survives wal.contents := by
  refine ⟨wal.file.length, ?_⟩
  rw [List.take_of_length_le (Nat.le_max_right _ _), wal.replays]

theorem Survives.eq_of_synced (survives : wal.Survives contents)
    (synced : wal.synced = wal.file.length) : contents = wal.contents := by
  obtain ⟨keep, rfl⟩ := survives
  rw [List.take_of_length_le (synced ▸ Nat.le_max_left _ _), wal.replays]

theorem Survives.of_sync (survives : wal.sync.Survives contents) : contents = wal.contents :=
  survives.eq_of_synced rfl

theorem Survives.of_appendRecord {record : Record}
    (survives : (wal.appendRecord record).Survives contents) :
    wal.Survives contents ∨ contents = record.effect wal.contents := by
  obtain ⟨keep, rfl⟩ := survives
  change wal.Survives (replay _ ((wal.file ++ [record]).take (max wal.synced keep))) ∨ _
  rcases Nat.lt_or_ge wal.file.length (max wal.synced keep) with whole | part
  · right
    change replay _ ((wal.file ++ [record]).take (max wal.synced keep)) = _
    rw [List.take_of_length_le (by rw [List.length_append]; exact whole)]
    exact (wal.appendRecord record).replays
  · left
    rw [List.take_append_of_le_length part]
    exact ⟨keep, rfl⟩

theorem reopen_ok {keep : ℕ} (opened : wal.reopen keep = .ok reopened) :
    reopened.file = wal.file.take (max wal.synced keep) ∧ reopened.synced = wal.synced := by
  unfold reopen openWAL at opened
  split at opened
  · simp at opened
  · cases opened
    exact ⟨rfl, rfl⟩

theorem reopen_contents {keep : ℕ} (opened : wal.reopen keep = .ok reopened) :
    reopened.contents = replay Contents.empty (wal.file.take (max wal.synced keep)) := by
  rw [← reopened.replays, (reopen_ok opened).1]

theorem reopen_survives {keep : ℕ} (opened : wal.reopen keep = .ok reopened) :
    wal.Survives reopened.contents :=
  ⟨keep, reopen_contents opened⟩

/-- What a second crash may leave, the first might have left. -/
theorem Survives.of_reopen {keep : ℕ} (opened : wal.reopen keep = .ok reopened)
    (survives : reopened.Survives contents) : wal.Survives contents := by
  obtain ⟨again, rfl⟩ := survives
  obtain ⟨file, synced⟩ := reopen_ok opened
  refine ⟨min (max wal.synced again) (max wal.synced keep), ?_⟩
  have covers : wal.synced ≤ min (max wal.synced again) (max wal.synced keep) :=
    le_min (le_max_left _ _) (le_max_left _ _)
  rw [file, synced, List.take_take, max_eq_right covers]

/-- A storage that has read back nothing else loses nothing in the next crash. -/
theorem ReadsSynced.synced_eq {keep : ℕ} (reads : wal.ReadsSynced keep)
    (opened : wal.reopen keep = .ok reopened) : reopened.synced = reopened.file.length := by
  obtain ⟨file, synced⟩ := reopen_ok opened
  have bound := wal.synced_le
  rw [ReadsSynced] at reads
  rw [file, synced, List.length_take]
  omega

/-- What a compaction that the storage accepts leaves. -/
theorem compact_ok (done : wal.compact snapshot = .ok compacted) :
    compacted.contents.state = wal.contents.state ∧
      compacted.contents.entries =
        wal.contents.entries.filter (snapshot.lastIncludedIndex < ·.index) ∧
      compacted.contents.snapshot = some snapshot ∧
      compacted.synced = compacted.file.length ∧
      0 < snapshot.lastIncludedIndex ∧
      ∃ stored, wal.contents.snapshot = some stored ∧
        stored.lastIncludedIndex = snapshot.lastIncludedIndex ∧
        stored.lastIncludedTerm = snapshot.lastIncludedTerm := by
  unfold compact at done
  split at done
  · simp at done
  · rename_i nonzero
    split at done
    · simp at done
    · rename_i stored found
      split at done
      · simp at done
      · rename_i sameIndex
        split at done
        · simp at done
        · rename_i sameTerm
          cases done
          exact ⟨rfl, rfl, rfl, rfl, Nat.pos_of_ne_zero nonzero, stored, found,
            not_not.mp sameIndex, not_not.mp sameTerm⟩

theorem compact_file (done : wal.compact snapshot = .ok compacted) :
    compacted.file = compactedFile wal.contents.state snapshot
      (wal.contents.entries.filter (snapshot.lastIncludedIndex < ·.index)) := by
  unfold compact at done
  split at done
  · cases done
  · split at done
    · cases done
    · split at done
      · cases done
      · split at done
        · cases done
        · cases done
          rfl

theorem forall_mem_compactedFile {holds : Record → Prop} {state : PersistentState} {entries : List LogEntry}
    (ofState : holds (.state state)) (ofSnapshot : holds (.snapshot snapshot))
    (ofEntries : holds (.entries entries)) : ∀ record ∈ compactedFile state snapshot entries, holds record := by
  intro record member
  simp only [compactedFile, List.cons_append, List.nil_append, List.mem_cons] at member
  rcases member with rfl | rfl | last
  · exact ofState
  · exact ofSnapshot
  · split at last
    · cases last
    · cases List.mem_singleton.mp last
      exact ofEntries

/-- The stored snapshot can be compacted to. -/
theorem compact_stored {stored : Snapshot} (found : wal.contents.snapshot = some stored)
    (index : stored.lastIncludedIndex = snapshot.lastIncludedIndex)
    (term : stored.lastIncludedTerm = snapshot.lastIncludedTerm)
    (positive : 0 < snapshot.lastIncludedIndex) : ∃ compacted, wal.compact snapshot = .ok compacted := by
  unfold compact
  rw [if_neg (Nat.ne_of_gt positive), found]
  simp [index, term]

end WALStorage

namespace Written

/-- What holds of the storage however a call to it ends. -/
def Ensures (written : Written) (ok failed crashed : WALStorage → Prop) : Prop :=
  match written with
  | .ok wal => ok wal
  | .failed _ wal => failed wal
  | .crashed wal => crashed wal

end Written

/-- Storage calls do not fail; the process may stop in the middle of one. -/
def Fault.Works (fault : Fault) : Prop :=
  fault = .none ∨ fault = .crash

namespace WALStorage

theorem writeSync_ensures {wal : WALStorage} {write : WALStorage → Except StorageError WALStorage}
    {fault : Fault} {ok lost : WALStorage → Prop} (unchanged : lost wal)
    (synced : ∀ written, write wal = .ok written → ok written.sync)
    (unsynced : ∀ written, write wal = .ok written → lost written) :
    (wal.writeSync write fault).Ensures ok lost lost := by
  unfold writeSync
  cases accepted : write wal with
  | error error => exact unchanged
  | ok written =>
      cases fault with
      | none => exact synced written accepted
      | writeFails => exact unchanged
      | syncFails => exact unsynced written accepted
      | diskFull => exact unsynced written accepted
      | crash => exact unsynced written accepted

theorem compactDurably_ensures {wal : WALStorage} {snapshot : Snapshot} {fault : Fault}
    {ok lost : WALStorage → Prop} (unchanged : lost wal)
    (done : ∀ compacted, wal.compact snapshot = .ok compacted → ok compacted) :
    (wal.compactDurably snapshot fault).Ensures ok lost lost := by
  unfold compactDurably
  cases accepted : wal.compact snapshot with
  | error error => exact unchanged
  | ok compacted =>
      cases fault with
      | none => exact done compacted accepted
      | writeFails => exact unchanged
      | syncFails => exact unchanged
      | diskFull => exact unchanged
      | crash => exact unchanged

variable {wal : WALStorage} {entries : List LogEntry} {start : ℕ} {fault : Fault}

theorem writeSync_works {write : WALStorage → Except StorageError WALStorage} (works : fault.Works)
    {written : WALStorage} (accepted : write wal = .ok written) :
    wal.writeSync write fault = .ok written.sync ∨ wal.writeSync write fault = .crashed written := by
  unfold writeSync
  rw [accepted]
  cases works with
  | inl none =>
      subst none
      exact Or.inl rfl
  | inr crash =>
      subst crash
      exact Or.inr rfl

theorem saveSnapshot_works (wal : WALStorage) (snapshot : Snapshot) (works : fault.Works) :
    wal.writeSync (saveSnapshot snapshot) fault = .ok (wal.appendRecord (.snapshot snapshot)).sync ∨
      wal.writeSync (saveSnapshot snapshot) fault = .crashed (wal.appendRecord (.snapshot snapshot)) :=
  writeSync_works works rfl

theorem appendEntries_works (works : fault.Works) (some : entries ≠ []) :
    (∃ error, wal.writeSync (appendEntries entries) fault = .failed error wal) ∨
      validateAppend wal.contents.entries entries = .ok () ∧
        (wal.writeSync (appendEntries entries) fault = .ok (wal.appendRecord (.entries entries)).sync ∨
          wal.writeSync (appendEntries entries) fault = .crashed (wal.appendRecord (.entries entries))) := by
  cases validated : validateEntries entries with
  | error error => exact Or.inl ⟨error, by simp [writeSync, appendEntries, some, validated]⟩
  | ok _ =>
      cases fits : validateAppend wal.contents.entries entries with
      | error error => exact Or.inl ⟨error, by simp [writeSync, appendEntries, some, validated, fits]⟩
      | ok _ =>
          have accepted : appendEntries entries wal = .ok (wal.appendRecord (.entries entries)) := by
            simp [appendEntries, some, validated, fits]
          exact Or.inr ⟨rfl, writeSync_works works accepted⟩

theorem replaceSuffix_works (works : fault.Works) :
    (∃ error, wal.writeSync (replaceSuffix start entries) fault = .failed error wal) ∨
      (∀ snapshot, wal.contents.snapshot = some snapshot → snapshot.lastIncludedIndex < start) ∧
        (wal.writeSync (replaceSuffix start entries) fault =
            .ok (wal.appendRecord (.replaceSuffix start entries)).sync ∨
          wal.writeSync (replaceSuffix start entries) fault =
            .crashed (wal.appendRecord (.replaceSuffix start entries))) := by
  cases fits : validateReplaceSuffix wal.contents.snapshot start entries with
  | error error => exact Or.inl ⟨error, by simp [writeSync, replaceSuffix, fits]⟩
  | ok _ =>
      have accepted :
          replaceSuffix start entries wal = .ok (wal.appendRecord (.replaceSuffix start entries)) := by
        simp [replaceSuffix, fits]
      obtain ⟨_, above, _⟩ := validateReplaceSuffix_iff.mp fits
      exact Or.inr ⟨above, writeSync_works works accepted⟩

theorem compactDurably_accepted {snapshot : Snapshot} {compacted : WALStorage} (works : fault.Works)
    (accepted : wal.compact snapshot = .ok compacted) :
    wal.compactDurably snapshot fault = .ok compacted ∨ wal.compactDurably snapshot fault = .crashed wal := by
  unfold compactDurably
  rw [accepted]
  cases works with
  | inl none =>
      subst none
      exact Or.inl rfl
  | inr crash =>
      subst crash
      exact Or.inr rfl

theorem compactDurably_works {snapshot : Snapshot} (works : fault.Works) :
    (∃ error, wal.compactDurably snapshot fault = .failed error wal) ∨
      ∃ compacted, wal.compact snapshot = .ok compacted ∧
        (wal.compactDurably snapshot fault = .ok compacted ∨
          wal.compactDurably snapshot fault = .crashed wal) := by
  cases accepted : wal.compact snapshot with
  | error error => exact Or.inl ⟨error, by simp only [compactDurably, accepted]⟩
  | ok compacted => exact Or.inr ⟨compacted, rfl, compactDurably_accepted works accepted⟩

end WALStorage

end Raftiq
