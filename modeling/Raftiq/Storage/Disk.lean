import Raftiq.Storage.Payload

namespace Raftiq

open Framing

/-! The write-ahead log as the file system sees it.  The file is opened in append mode: a write
goes to the end and leaves the offset there, a freshly opened file has offset 0. -/

/-- The storage object; the offset is that of its open file, if there is one. -/
structure DiskWAL where
  contents : Contents
  bytes : Bytes
  offset : Option ℕ
deriving DecidableEq

inductive RecoverError where
  | decode (error : DecodeError)
  | validate (error : StorageError)
deriving DecidableEq, Repr

/-- What recovery does with a complete record. -/
def applyRecord (json : SnapshotJSON) (contents : Contents) (raw : RawRecord) : Except RecoverError Contents :=
  match raw.decode json with
  | .error error => .error (.decode error)
  | .ok record =>
      match record.validateRecovered contents with
      | .error error => .error (.validate error)
      | .ok () => .ok (record.effect contents)

/-- Truncation to a size above the present one fills up with zeros. -/
def truncateFile (size : ℕ) (bytes : Bytes) : Bytes :=
  bytes.take size ++ List.replicate (size - bytes.length) 0

/-- The calls that write. -/
inductive WriteCall where
  | saveState (state : PersistentState)
  | appendEntries (entries : List LogEntry)
  | replaceSuffix (start : ℕ) (entries : List LogEntry)
  | saveSnapshot (snapshot : Snapshot)
  | compact (snapshot : Snapshot)
deriving DecidableEq

/-- Which operation of the file system goes wrong during a call.  A failing write has written
some bytes already; after it the rollback may fail as well.  The last four concern compaction:
`tempFile` stands for any failure before the old file is closed. -/
inductive FileFault where
  | none
  | seek
  | write (written : ℕ)
  | writeTruncate (written : ℕ)
  | writeSeek (written : ℕ)
  | tempFile
  | close
  | rename (reopened : Bool)
  | reopen
deriving DecidableEq, Repr

inductive WALError where
  | closed
  | storage (error : StorageError)
  | encode (error : EncodeError)
  | file (fault : FileFault)
deriving DecidableEq, Repr

namespace DiskWAL

/-- The object after a call, and the error if the call returns one. -/
structure Returned where
  disk : DiskWAL
  error : Option WALError
deriving DecidableEq

def fails (disk : DiskWAL) (error : WALError) : Returned :=
  { disk := disk, error := some error }

/-- `ensureOpen`, then the rest of the call with the offset of the file. -/
def ensureOpen (disk : DiskWAL) (rest : ℕ → Returned) : Returned :=
  match disk.offset with
  | none => disk.fails .closed
  | some offset => rest offset

def checked (disk : DiskWAL) (validation : Except StorageError Unit) (rest : Returned) : Returned :=
  match validation with
  | .error error => disk.fails (.storage error)
  | .ok () => rest

/-- The source's rollback: truncate to the offset the file had before the write. -/
def appendRecord (disk : DiskWAL) (startOffset : ℕ) (record : Bytes) (fault : FileFault) : Returned :=
  match fault with
  | .seek => disk.fails (.file fault)
  | .write written =>
      let bytes := truncateFile startOffset (disk.bytes ++ record.take written)
      fails { disk with bytes := bytes, offset := some bytes.length } (.file fault)
  | .writeTruncate written =>
      fails { disk with bytes := disk.bytes ++ record.take written, offset := none } (.file fault)
  | .writeSeek written =>
      fails { disk with bytes := truncateFile startOffset (disk.bytes ++ record.take written), offset := none }
        (.file fault)
  | _ =>
      { disk := { disk with bytes := disk.bytes ++ record, offset := some (disk.bytes ++ record).length }
        error := none }

variable (crc : Bytes → UInt32) (json : SnapshotJSON)

/-- Encodes a record, appends it to the file and only then updates what is in memory. -/
def writeRecord (disk : DiskWAL) (startOffset : ℕ) (record : Record) (fault : FileFault) : Returned :=
  match record.encode json with
  | .error error => disk.fails (.encode error)
  | .ok raw =>
      let written := disk.appendRecord startOffset (raw.bytes crc) fault
      match written.error with
      | some _ => written
      | none => { written with disk := { written.disk with contents := record.effect disk.contents } }

def saveState (disk : DiskWAL) (state : PersistentState) (fault : FileFault) : Returned :=
  disk.ensureOpen fun offset => disk.writeRecord crc json offset (.state state) fault

def appendEntries (disk : DiskWAL) (entries : List LogEntry) (fault : FileFault) : Returned :=
  disk.ensureOpen fun offset =>
    if entries = [] then { disk := disk, error := none }
    else
      disk.checked (validateEntries entries) <|
        disk.checked (validateAppend disk.contents.entries entries) <|
          disk.writeRecord crc json offset (.entries entries) fault

def replaceSuffix (disk : DiskWAL) (start : ℕ) (entries : List LogEntry) (fault : FileFault) : Returned :=
  disk.ensureOpen fun offset =>
    disk.checked (validateReplaceSuffix disk.contents.snapshot start entries) <|
      disk.writeRecord crc json offset (.replaceSuffix start entries) fault

def saveSnapshot (disk : DiskWAL) (snapshot : Snapshot) (fault : FileFault) : Returned :=
  disk.ensureOpen fun offset => disk.writeRecord crc json offset (.snapshot snapshot) fault

/-- The records of the compacted file, all of them encoded before any is written. -/
def encodeCompacted (state : PersistentState) (snapshot : Snapshot) (entries : List LogEntry) :
    Except EncodeError Bytes := do
  let stateRecord ← (Record.state state).encode json
  let snapshotRecord ← (Record.snapshot snapshot).encode json
  let entriesRecord ← (Record.entries entries).encode json
  .ok (encodeAll (recordFormat crc)
    ([stateRecord, snapshotRecord] ++ if entries = [] then [] else [entriesRecord]))

/-- Once the temporary file is complete the old file is closed, replaced and opened again. -/
def replaceFile (disk : DiskWAL) (bytes : Bytes) (contents : Contents) (fault : FileFault) : Returned :=
  match fault with
  | .seek | .write _ | .writeTruncate _ | .writeSeek _ | .tempFile => disk.fails (.file fault)
  | .close => fails { disk with offset := none } (.file fault)
  | .rename reopened => fails { disk with offset := if reopened then some 0 else none } (.file fault)
  | .reopen => fails { disk with bytes := bytes, offset := none } (.file fault)
  | .none => { disk := { contents := contents, bytes := bytes, offset := some 0 }, error := none }

def validateCompact (stored : Option Snapshot) (snapshot : Snapshot) : Except StorageError Unit :=
  if snapshot.lastIncludedIndex = 0 then .error .compactAtZero
  else
    match stored with
    | none => .error .compactWithoutSnapshot
    | some stored =>
        if stored.lastIncludedIndex ≠ snapshot.lastIncludedIndex then
          .error (.snapshotIndexMismatch stored.lastIncludedIndex snapshot.lastIncludedIndex)
        else if stored.lastIncludedTerm ≠ snapshot.lastIncludedTerm then
          .error (.snapshotTermMismatch stored.lastIncludedTerm snapshot.lastIncludedTerm)
        else .ok ()

def compact (disk : DiskWAL) (snapshot : Snapshot) (fault : FileFault) : Returned :=
  disk.ensureOpen fun _ =>
    disk.checked (validateCompact disk.contents.snapshot snapshot) <|
      let entries := disk.contents.entries.filter (snapshot.lastIncludedIndex < ·.index)
      match encodeCompacted crc json disk.contents.state snapshot entries with
      | .error error => disk.fails (.encode error)
      | .ok bytes =>
          disk.replaceFile bytes
            { state := disk.contents.state, entries := entries, snapshot := some snapshot } fault

def perform (disk : DiskWAL) (call : WriteCall) (fault : FileFault) : Returned :=
  match call with
  | .saveState state => disk.saveState crc json state fault
  | .appendEntries entries => disk.appendEntries crc json entries fault
  | .replaceSuffix start entries => disk.replaceSuffix crc json start entries fault
  | .saveSnapshot snapshot => disk.saveSnapshot crc json snapshot fault
  | .compact snapshot => disk.compact crc json snapshot fault

/-- `OpenWAL`: a torn tail is cut off, and the offset is moved to the end. -/
def openWAL (bytes : Bytes) : Except (ScanError RecordFault RecoverError) DiskWAL :=
  match scan (recordFormat crc) (applyRecord json) (bytes.length + 1) 0 Contents.empty bytes with
  | .error error => .error error
  | .ok scanned =>
      let bytes := if scanned.torn then truncateFile scanned.offset bytes else bytes
      .ok { contents := scanned.state, bytes := bytes, offset := some bytes.length }

def loadState (disk : DiskWAL) : Except WALError PersistentState :=
  if disk.offset = none then .error .closed else .ok disk.contents.state

def loadEntries (disk : DiskWAL) : Except WALError (List LogEntry) :=
  if disk.offset = none then .error .closed else .ok disk.contents.entries

def loadSnapshot (disk : DiskWAL) : Except WALError Snapshot :=
  if disk.offset = none then .error .closed else .ok disk.contents.loadSnapshot

/-- The storage objects of a process: opened on some file, then used. -/
inductive Reachable : DiskWAL → Prop where
  | opened {bytes : Bytes} {disk : DiskWAL} (opened : openWAL crc json bytes = .ok disk) : Reachable disk
  | called {disk : DiskWAL} (before : Reachable disk) (call : WriteCall) (fault : FileFault) :
      Reachable (disk.perform crc json call fault).disk

end DiskWAL

end Raftiq
