import Raftiq.Storage.Mirror

namespace Raftiq

/-- The storage that keeps everything in memory. -/
structure MemoryStorage where
  state : PersistentState
  entries : List LogEntry
  snapshot : Option Snapshot
deriving DecidableEq

namespace MemoryStorage

def new : MemoryStorage where
  state := Contents.empty.state
  entries := []
  snapshot := none

def saveSnapshot (memory : MemoryStorage) (snapshot : Snapshot) : MemoryStorage × Option StorageError :=
  ({ memory with snapshot := some snapshot }, none)

def saveState (memory : MemoryStorage) (state : PersistentState) : MemoryStorage × Option StorageError :=
  ({ memory with state := state }, none)

def appendEntries (memory : MemoryStorage) (entries : List LogEntry) : MemoryStorage × Option StorageError :=
  if entries.length = 0 then (memory, none)
  else
    match validateEntries entries with
    | .error error => (memory, some error)
    | .ok () =>
        match validateAppend memory.entries entries with
        | .error error => (memory, some error)
        | .ok () => ({ memory with entries := memory.entries ++ entries }, none)

/-- How many entries come before the first one that is not below the index. -/
def keep (fromIndex : ℕ) : List LogEntry → ℕ
  | [] => 0
  | entry :: rest => if entry.index < fromIndex then keep fromIndex rest + 1 else 0

def replaceSuffix (memory : MemoryStorage) (fromIndex : ℕ) (entries : List LogEntry) :
    MemoryStorage × Option StorageError :=
  match validateReplaceSuffix memory.snapshot fromIndex entries with
  | .error error => (memory, some error)
  | .ok () =>
      let kept :=
        if keep fromIndex memory.entries < memory.entries.length then
          memory.entries.take (keep fromIndex memory.entries)
        else memory.entries
      ({ memory with entries := kept ++ entries }, none)

/-- Only the index of the snapshot is compared, and the stored snapshot stays. -/
def compact (memory : MemoryStorage) (snapshot : Snapshot) : MemoryStorage × Option StorageError :=
  if snapshot.lastIncludedIndex = 0 then (memory, some .compactAtZero)
  else
    match memory.snapshot with
    | none => (memory, some .compactWithoutSnapshot)
    | some stored =>
        if stored.lastIncludedIndex ≠ snapshot.lastIncludedIndex then
          (memory, some (.snapshotIndexMismatch stored.lastIncludedIndex snapshot.lastIncludedIndex))
        else
          ({ memory with entries := memory.entries.filter (·.index > snapshot.lastIncludedIndex) }, none)

def loadState (memory : MemoryStorage) : PersistentState :=
  memory.state

def loadEntries (memory : MemoryStorage) : List LogEntry :=
  memory.entries

def loadSnapshot (memory : MemoryStorage) : Snapshot :=
  memory.snapshot.getD { lastIncludedIndex := 0, lastIncludedTerm := 0, data := [] }

def perform (memory : MemoryStorage) : WriteCall → MemoryStorage × Option StorageError
  | .saveState state => memory.saveState state
  | .appendEntries entries => memory.appendEntries entries
  | .replaceSuffix start entries => memory.replaceSuffix start entries
  | .saveSnapshot snapshot => memory.saveSnapshot snapshot
  | .compact snapshot => memory.compact snapshot

/-- A compaction at the index of the stored snapshot is given that very snapshot. -/
def compactsStored (memory : MemoryStorage) : WriteCall → Bool
  | .compact snapshot =>
      memory.snapshot.all fun stored =>
        stored.lastIncludedIndex ≠ snapshot.lastIncludedIndex ∨ snapshot.lastIncludedIndex = 0 ∨ stored = snapshot
  | _ => true

theorem kept_eq (fromIndex : ℕ) (entries : List LogEntry) :
    (if keep fromIndex entries < entries.length then entries.take (keep fromIndex entries) else entries) =
      entries.takeWhile (·.index < fromIndex) := by
  have taken : entries.take (keep fromIndex entries) = entries.takeWhile (·.index < fromIndex) := by
    induction entries with
    | nil => rfl
    | cons entry rest ih =>
        unfold keep
        split
        · rename_i below
          simp [below, ih]
        · rename_i above
          simp [above]
  split
  · exact taken
  · rename_i whole
    rw [← taken, List.take_of_length_le (not_lt.mp whole)]

end MemoryStorage

/-- The two storages hold the same. -/
structure Matches (disk : DiskWAL) (memory : MemoryStorage) : Prop where
  isOpen : disk.offset ≠ none
  contents : disk.contents = { state := memory.state, entries := memory.entries, snapshot := memory.snapshot }

namespace Matches

variable {crc : Bytes → UInt32} {json : SnapshotJSON} {disk : DiskWAL} {memory : MemoryStorage} {call : WriteCall}

theorem loads (matched : Matches disk memory) :
    disk.loadState = .ok memory.loadState ∧ disk.loadEntries = .ok memory.loadEntries ∧
      disk.loadSnapshot = .ok memory.loadSnapshot := by
  simp only [DiskWAL.loadState, DiskWAL.loadEntries, DiskWAL.loadSnapshot, if_neg matched.isOpen,
    matched.contents]
  exact ⟨rfl, rfl, rfl⟩

/-- The call gives the same on both sides. -/
def Agrees (returned : DiskWAL.Returned) (result : MemoryStorage × Option StorageError) : Prop :=
  returned.error = result.2.map .storage ∧ Matches returned.disk result.1

theorem refused (matched : Matches disk memory) (error : StorageError) :
    Agrees (disk.fails (.storage error)) (memory, some error) :=
  ⟨rfl, matched⟩

theorem writes {offset : ℕ} {record : Record} {next : MemoryStorage}
    (fits : ∀ error, (disk.writeRecord crc json offset record .none).error ≠ some (.encode error))
    (effect : record.effect disk.contents =
      { state := next.state, entries := next.entries, snapshot := next.snapshot }) :
    Agrees (disk.writeRecord crc json offset record .none) (next, none) := by
  cases encoded : record.encode json with
  | error error =>
      rw [DiskWAL.writeRecord_error encoded] at fits
      exact absurd rfl (fits error)
  | ok raw =>
      rw [DiskWAL.writeRecord_works encoded]
      exact ⟨rfl, Option.some_ne_none _, effect⟩

theorem compact {snapshot : Snapshot} (matched : Matches disk memory)
    (fits : ∀ error, (disk.compact crc json snapshot .none).error ≠ some (.encode error))
    (stored : memory.compactsStored (.compact snapshot)) :
    Agrees (disk.compact crc json snapshot .none) (memory.compact snapshot) := by
  obtain ⟨offset, opened⟩ := Option.ne_none_iff_exists'.mp matched.isOpen
  simp only [DiskWAL.compact, DiskWAL.ensureOpen_some opened, DiskWAL.validateCompact, matched.contents] at fits ⊢
  unfold MemoryStorage.compact
  by_cases zero : snapshot.lastIncludedIndex = 0
  · rw [if_pos zero, if_pos zero]
    exact matched.refused _
  · rw [if_neg zero] at fits ⊢
    rw [if_neg zero]
    cases present : memory.snapshot with
    | none => exact matched.refused _
    | some held =>
        simp only [present] at fits ⊢
        by_cases index : held.lastIncludedIndex = snapshot.lastIncludedIndex
        · have same : held = snapshot := by
            simpa [MemoryStorage.compactsStored, present, index, zero] using stored
          subst same
          simp only [ne_eq, not_true_eq_false, if_false, DiskWAL.checked_ok] at fits ⊢
          split
          · rename_i error encoded
            simp only [encoded] at fits
            exact absurd rfl (fits error)
          · exact ⟨rfl, Option.some_ne_none 0, rfl⟩
        · rw [if_pos index, if_pos index]
          exact matched.refused _

/-- A call that fits into its record does the same to both. -/
theorem perform (matched : Matches disk memory)
    (fits : ∀ error, (disk.perform crc json call .none).error ≠ some (.encode error))
    (stored : memory.compactsStored call) :
    Agrees (disk.perform crc json call .none) (memory.perform call) := by
  obtain ⟨offset, opened⟩ := Option.ne_none_iff_exists'.mp matched.isOpen
  cases call with
  | saveState state =>
      simp only [DiskWAL.perform, DiskWAL.saveState, DiskWAL.ensureOpen_some opened] at fits ⊢
      exact writes fits (by rw [matched.contents]; rfl)
  | saveSnapshot snapshot =>
      simp only [DiskWAL.perform, DiskWAL.saveSnapshot, DiskWAL.ensureOpen_some opened] at fits ⊢
      exact writes fits (by rw [matched.contents]; rfl)
  | appendEntries entries =>
      simp only [DiskWAL.perform, DiskWAL.appendEntries, DiskWAL.ensureOpen_some opened,
        MemoryStorage.perform, MemoryStorage.appendEntries, List.length_eq_zero_iff] at fits ⊢
      by_cases none : entries = []
      · rw [if_pos none, if_pos none]
        exact ⟨rfl, matched⟩
      · rw [if_neg none] at fits ⊢
        rw [if_neg none]
        cases valid : validateEntries entries with
        | error error => exact matched.refused error
        | ok _ =>
            rw [valid, DiskWAL.checked_ok rfl] at fits
            rw [DiskWAL.checked_ok rfl]
            have same : disk.contents.entries = memory.entries := by rw [matched.contents]
            rw [same] at fits ⊢
            cases follows : validateAppend memory.entries entries with
            | error error => exact matched.refused error
            | ok _ =>
                rw [follows, DiskWAL.checked_ok rfl] at fits
                rw [DiskWAL.checked_ok rfl]
                exact writes fits (by rw [matched.contents]; rfl)
  | replaceSuffix start entries =>
      simp only [DiskWAL.perform, DiskWAL.replaceSuffix, DiskWAL.ensureOpen_some opened,
        MemoryStorage.perform, MemoryStorage.replaceSuffix, MemoryStorage.kept_eq] at fits ⊢
      have same : disk.contents.snapshot = memory.snapshot := by rw [matched.contents]
      rw [same] at fits ⊢
      cases valid : validateReplaceSuffix memory.snapshot start entries with
      | error error => exact matched.refused error
      | ok _ =>
          rw [valid, DiskWAL.checked_ok rfl] at fits
          rw [DiskWAL.checked_ok rfl]
          exact writes fits (by rw [matched.contents]; rfl)
  | compact snapshot => exact matched.compact fits stored

end Matches

end Raftiq
