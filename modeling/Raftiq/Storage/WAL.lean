import Raftiq.Raft.Log

namespace Raftiq

inductive StorageError where
  | zeroIndex (position : ℕ)
  | notContiguous (previous next : ℕ)
  | appendStart (got want : ℕ)
  | suffixAtZero
  | suffixBelowSnapshot (start snapshot : ℕ)
  | suffixStart (got want : ℕ)
  | zeroSnapshot
  | snapshotBackwards (current requested : ℕ)
  | snapshotTermChanged (index current requested : ℕ)
  | compactAtZero
  | compactWithoutSnapshot
  | snapshotIndexMismatch (stored requested : ℕ)
  | snapshotTermMismatch (stored requested : ℕ)
  | write
  | sync
  | diskFull
deriving DecidableEq, Repr

def validateEntriesFrom : ℕ → Option LogEntry → List LogEntry → Except StorageError Unit
  | _, _, [] => .ok ()
  | position, previous, entry :: rest =>
      if entry.index = 0 then .error (.zeroIndex position)
      else
        match previous with
        | none => validateEntriesFrom (position + 1) (some entry) rest
        | some before =>
            if entry.index ≠ before.index + 1 then .error (.notContiguous before.index entry.index)
            else validateEntriesFrom (position + 1) (some entry) rest

def validateEntries (entries : List LogEntry) : Except StorageError Unit :=
  validateEntriesFrom 0 none entries

/-- An append to an empty store may start anywhere. -/
def validateAppend (existing additions : List LogEntry) : Except StorageError Unit :=
  match existing.getLast?, additions.head? with
  | some last, some first =>
      if first.index ≠ last.index + 1 then .error (.appendStart first.index (last.index + 1))
      else .ok ()
  | _, _ => .ok ()

def validateReplaceSuffix (snapshot : Option Snapshot) (start : ℕ) (entries : List LogEntry) :
    Except StorageError Unit :=
  if start = 0 then .error .suffixAtZero
  else
    match snapshot.filter (start ≤ ·.lastIncludedIndex) with
    | some snapshot => .error (.suffixBelowSnapshot start snapshot.lastIncludedIndex)
    | none =>
        match validateEntries entries with
        | .error error => .error error
        | .ok () =>
            match entries.head? with
            | some first =>
                if first.index ≠ start then .error (.suffixStart first.index start) else .ok ()
            | none => .ok ()

def validateRecoveredSnapshot (current : Option Snapshot) (snapshot : Snapshot) :
    Except StorageError Unit :=
  if snapshot.lastIncludedIndex = 0 then .error .zeroSnapshot
  else
    match current with
    | none => .ok ()
    | some current =>
        if snapshot.lastIncludedIndex < current.lastIncludedIndex then
          .error (.snapshotBackwards current.lastIncludedIndex snapshot.lastIncludedIndex)
        else if snapshot.lastIncludedIndex = current.lastIncludedIndex ∧
            snapshot.lastIncludedTerm ≠ current.lastIncludedTerm then
          .error (.snapshotTermChanged snapshot.lastIncludedIndex current.lastIncludedTerm
            snapshot.lastIncludedTerm)
        else .ok ()

def replaceSuffixCopy (existing : List LogEntry) (start : ℕ) (replacement : List LogEntry) :
    List LogEntry :=
  existing.takeWhile (·.index < start) ++ replacement

/-- What `LoadState`, `LoadEntries` and `LoadSnapshot` return. -/
structure Contents where
  state : PersistentState
  entries : List LogEntry
  snapshot : Option Snapshot
deriving DecidableEq

namespace Contents

def empty : Contents where
  state := { currentTerm := 0, votedFor := "", membership := { current := { voters := [] }, joint := none } }
  entries := []
  snapshot := none

/-- A missing snapshot is loaded as the zero snapshot. -/
def loadSnapshot (contents : Contents) : Snapshot :=
  contents.snapshot.getD { lastIncludedIndex := 0, lastIncludedTerm := 0, data := [] }

end Contents

/-- The complete records of a write-ahead log; a torn last record is not one of them. -/
inductive Record where
  | state (state : PersistentState)
  | entries (entries : List LogEntry)
  | snapshot (snapshot : Snapshot)
  | replaceSuffix (start : ℕ) (entries : List LogEntry)
deriving DecidableEq

namespace Record

def effect (contents : Contents) : Record → Contents
  | .state saved => { contents with state := saved }
  | .entries added => { contents with entries := contents.entries ++ added }
  | .snapshot saved => { contents with snapshot := some saved }
  | .replaceSuffix start added =>
      { contents with entries := replaceSuffixCopy contents.entries start added }

/-- What recovery demands of a record before it replays it. -/
def validateRecovered (contents : Contents) : Record → Except StorageError Unit
  | .state _ => .ok ()
  | .entries added =>
      match validateEntries added with
      | .error error => .error error
      | .ok () => validateAppend contents.entries added
  | .snapshot saved => validateRecoveredSnapshot contents.snapshot saved
  | .replaceSuffix start added =>
      match validateReplaceSuffix contents.snapshot start added with
      | .error error => .error error
      | .ok () => validateEntries (replaceSuffixCopy contents.entries start added)

end Record

def replay (contents : Contents) (file : List Record) : Contents :=
  file.foldl Record.effect contents

def recover (contents : Contents) : List Record → Except StorageError Contents
  | [] => .ok contents
  | record :: rest =>
      match record.validateRecovered contents with
      | .error error => .error error
      | .ok () => recover (record.effect contents) rest

theorem recover_replay {file : List Record} {contents recovered : Contents}
    (accepted : recover contents file = .ok recovered) : recovered = replay contents file := by
  induction file generalizing contents with
  | nil =>
      cases accepted
      rfl
  | cons record rest ih =>
      simp only [recover] at accepted
      split at accepted
      · simp at accepted
      · exact ih accepted

/-- An open write-ahead log: what it has loaded, the records in its file, and how many
of them a successful `Sync` has covered. -/
structure WALStorage where
  contents : Contents
  file : List Record
  synced : ℕ
  synced_le : synced ≤ file.length
  replays : replay Contents.empty file = contents
deriving DecidableEq

namespace WALStorage

def openEmpty : WALStorage where
  contents := Contents.empty
  file := []
  synced := 0
  synced_le := le_rfl
  replays := rfl

def appendRecord (wal : WALStorage) (record : Record) : WALStorage where
  contents := record.effect wal.contents
  file := wal.file ++ [record]
  synced := wal.synced
  synced_le := by
    have bound := wal.synced_le
    simp only [List.length_append]
    omega
  replays := by
    have before := wal.replays
    unfold replay at before ⊢
    rw [List.foldl_append, before]
    rfl

def sync (wal : WALStorage) : WALStorage :=
  { wal with synced := wal.file.length, synced_le := le_rfl }

def saveState (state : PersistentState) (wal : WALStorage) : Except StorageError WALStorage :=
  .ok (wal.appendRecord (.state state))

def saveSnapshot (snapshot : Snapshot) (wal : WALStorage) : Except StorageError WALStorage :=
  .ok (wal.appendRecord (.snapshot snapshot))

def appendEntries (entries : List LogEntry) (wal : WALStorage) : Except StorageError WALStorage :=
  if entries = [] then .ok wal
  else
    match validateEntries entries with
    | .error error => .error error
    | .ok () =>
        match validateAppend wal.contents.entries entries with
        | .error error => .error error
        | .ok () => .ok (wal.appendRecord (.entries entries))

def replaceSuffix (start : ℕ) (entries : List LogEntry) (wal : WALStorage) :
    Except StorageError WALStorage :=
  match validateReplaceSuffix wal.contents.snapshot start entries with
  | .error error => .error error
  | .ok () => .ok (wal.appendRecord (.replaceSuffix start entries))

/-- The file that replaces the write-ahead log when it is compacted. -/
def compactedFile (state : PersistentState) (snapshot : Snapshot) (entries : List LogEntry) :
    List Record :=
  [.state state, .snapshot snapshot] ++ if entries = [] then [] else [.entries entries]

theorem replay_compactedFile (state : PersistentState) (snapshot : Snapshot)
    (entries : List LogEntry) :
    replay Contents.empty (compactedFile state snapshot entries) =
      { state := state, entries := entries, snapshot := some snapshot } := by
  unfold compactedFile
  split
  · rename_i none
    simp [replay, Record.effect, Contents.empty, none]
  · simp [replay, Record.effect, Contents.empty]

/-- The new file is complete and synced before it takes the place of the old one. -/
def compact (snapshot : Snapshot) (wal : WALStorage) : Except StorageError WALStorage :=
  if snapshot.lastIncludedIndex = 0 then .error .compactAtZero
  else
    match wal.contents.snapshot with
    | none => .error .compactWithoutSnapshot
    | some stored =>
        if stored.lastIncludedIndex ≠ snapshot.lastIncludedIndex then
          .error (.snapshotIndexMismatch stored.lastIncludedIndex snapshot.lastIncludedIndex)
        else if stored.lastIncludedTerm ≠ snapshot.lastIncludedTerm then
          .error (.snapshotTermMismatch stored.lastIncludedTerm snapshot.lastIncludedTerm)
        else
          let entries := wal.contents.entries.filter (snapshot.lastIncludedIndex < ·.index)
          .ok {
            contents := { state := wal.contents.state, entries := entries, snapshot := some snapshot }
            file := compactedFile wal.contents.state snapshot entries
            synced := (compactedFile wal.contents.state snapshot entries).length
            synced_le := le_rfl
            replays := replay_compactedFile _ _ _ }

/-- Recovery reads the file and syncs nothing: as many of its records are durable as before. -/
def openWAL (file : List Record) (synced : ℕ) (synced_le : synced ≤ file.length) :
    Except StorageError WALStorage :=
  match accepted : recover Contents.empty file with
  | .error error => .error error
  | .ok contents =>
      .ok {
        contents := contents
        file := file
        synced := synced
        synced_le := synced_le
        replays := (recover_replay accepted).symm }

theorem synced_le_spared (wal : WALStorage) (keep : ℕ) :
    wal.synced ≤ (wal.file.take (max wal.synced keep)).length := by
  rw [List.length_take]
  exact le_min (le_max_left _ _) wal.synced_le

/-- Opening the file after a crash that has spared `keep` records.  Synced records are always
spared; the others that are read back may still be lost in the next crash. -/
def reopen (wal : WALStorage) (keep : ℕ) : Except StorageError WALStorage :=
  openWAL (wal.file.take (max wal.synced keep)) wal.synced (wal.synced_le_spared keep)

/-- Nothing that a `Sync` has not covered is read back. -/
def ReadsSynced (wal : WALStorage) (keep : ℕ) : Prop :=
  min keep wal.file.length ≤ wal.synced

instance (wal : WALStorage) (keep : ℕ) : Decidable (wal.ReadsSynced keep) :=
  inferInstanceAs (Decidable (min keep wal.file.length ≤ wal.synced))

end WALStorage

/-- What happens to a storage call that the storage itself accepts. -/
inductive Fault where
  | none
  | writeFails
  | syncFails
  | diskFull
  | crash
deriving DecidableEq, Repr

inductive Written where
  | ok (wal : WALStorage)
  | failed (error : StorageError) (wal : WALStorage)
  | crashed (wal : WALStorage)

namespace WALStorage

/-- A write followed by `Sync`.  A failed write is rolled back, a failed `Sync` leaves
the record in the file, and a crash may strike in between.  The rollback itself does not fail
here; in `appendRecord` that closes the storage. -/
def writeSync (wal : WALStorage) (write : WALStorage → Except StorageError WALStorage)
    (fault : Fault) : Written :=
  match write wal with
  | .error error => .failed error wal
  | .ok written =>
      match fault with
      | .none => .ok written.sync
      | .writeFails => .failed .write wal
      | .syncFails => .failed .sync written
      | .diskFull => .failed .diskFull written
      | .crash => .crashed written

/-- Compaction takes effect as a whole or not at all: the errors here are those that `Compact`
returns before it renames the new file. -/
def compactDurably (wal : WALStorage) (snapshot : Snapshot) (fault : Fault) : Written :=
  match wal.compact snapshot with
  | .error error => .failed error wal
  | .ok compacted =>
      match fault with
      | .none => .ok compacted
      | .crash => .crashed wal
      | _ => .failed .write wal

end WALStorage

end Raftiq
