import Raftiq.Raft.ConfigEntry
import Raftiq.Storage.RecordFormat
import Raftiq.Storage.WAL

namespace Raftiq

def recordState : UInt8 := 1

def recordEntries : UInt8 := 2

def recordSnapshot : UInt8 := 3

def recordReplaceSuffix : UInt8 := 4

def stateMembershipMagic : ℕ := 0x52414654

def stateMembershipVersion : UInt8 := 1

def maxWALConfigurationVoters : ℕ := 1024

def minimumEntrySize : ℕ := 20

def maxUint32 : ℕ := 2 ^ 32 - 1

/-- `encoding/json`, as far as snapshots go. -/
structure SnapshotJSON where
  marshal : Snapshot → Bytes
  unmarshal : Bytes → Option Snapshot

inductive EncodeError where
  | payloadTooLarge (size : ℕ)
  | votedForTooLarge (size : ℕ)
  | tooManyVoters (count : ℕ)
  | voterTooLarge (voter size : ℕ)
  | tooManyEntries (count : ℕ)
  | entryDataTooLarge (entry size : ℕ)
  | snapshotTooLarge (size : ℕ)
deriving DecidableEq, Repr

inductive PayloadError where
  | readTerm
  | readVotedForLength
  | votedForLength (length remaining : ℕ)
  | readMagic
  | invalidMagic (magic : ℕ)
  | readVersion
  | version (version : UInt8)
  | readVoterCount
  | tooManyVoters (count : ℕ)
  | voters (error : ConfigEntryError)
  | readJointFlag
  | jointFlag (flag : UInt8)
  | readFrom
  | readEntryCount
  | entryCount (count remaining : ℕ)
  | readEntryIndex (entry : ℕ)
  | readEntryTerm (entry : ℕ)
  | readDataLength (entry : ℕ)
  | dataLength (entry length remaining : ℕ)
  | trailing (size : ℕ)
  | entries (error : StorageError)
  | snapshot
deriving DecidableEq, Repr

def bytesOfNodeID (id : NodeID) : Bytes :=
  id.toList.map fun character => UInt8.ofNat character.toNat

/-! Encoding: the checks of the source come first, then the bytes. -/

def voterLayout (id : NodeID) : Bytes :=
  bigEndianBytes 4 (bytesOfNodeID id).length ++ bytesOfNodeID id

def encodeVoters : ℕ → List NodeID → Except EncodeError Bytes
  | _, [] => .ok []
  | voter, id :: rest =>
      if (bytesOfNodeID id).length > maxUint32 then .error (.voterTooLarge voter (bytesOfNodeID id).length)
      else (encodeVoters (voter + 1) rest).map (voterLayout id ++ ·)

def encodeConfiguration (configuration : Configuration) : Except EncodeError Bytes :=
  if configuration.voters.length > maxUint32 then .error (.tooManyVoters configuration.voters.length)
  else (encodeVoters 0 configuration.voters).map (bigEndianBytes 4 configuration.voters.length ++ ·)

def encodeJoint : Option JointConfiguration → Except EncodeError Bytes
  | none => .ok [0]
  | some joint => do
      let old ← encodeConfiguration joint.old
      let new ← encodeConfiguration joint.new
      .ok (1 :: (old ++ new))

def encodeMembership (membership : Membership) : Except EncodeError Bytes := do
  let current ← encodeConfiguration membership.current
  let joint ← encodeJoint membership.joint
  .ok (bigEndianBytes 4 stateMembershipMagic ++ stateMembershipVersion :: (current ++ joint))

def encodeStatePayload (state : PersistentState) : Except EncodeError Bytes := do
  let votedFor := bytesOfNodeID state.votedFor
  if votedFor.length > maxUint32 then .error (.votedForTooLarge votedFor.length)
  else
    let membership ← encodeMembership state.membership
    .ok (bigEndianBytes 8 state.currentTerm ++ (bigEndianBytes 4 votedFor.length ++ (votedFor ++ membership)))

def entryLayout (entry : LogEntry) : Bytes :=
  bigEndianBytes 8 entry.index ++ (bigEndianBytes 8 entry.term ++
    (bigEndianBytes 4 entry.data.length ++ entry.data))

def encodeEntriesFrom : ℕ → List LogEntry → Except EncodeError Bytes
  | _, [] => .ok []
  | position, entry :: rest =>
      if entry.data.length > maxUint32 then .error (.entryDataTooLarge position entry.data.length)
      else (encodeEntriesFrom (position + 1) rest).map (entryLayout entry ++ ·)

def encodeEntriesPayload (entries : List LogEntry) : Except EncodeError Bytes :=
  if entries.length > maxUint32 then .error (.tooManyEntries entries.length)
  else (encodeEntriesFrom 0 entries).map (bigEndianBytes 4 entries.length ++ ·)

def encodeReplaceSuffixPayload (start : ℕ) (entries : List LogEntry) : Except EncodeError Bytes :=
  (encodeEntriesPayload entries).map (bigEndianBytes 8 start ++ ·)

def encodeSnapshotPayload (json : SnapshotJSON) (snapshot : Snapshot) : Except EncodeError Bytes :=
  if (json.marshal snapshot).length > maxRecordPayloadSize then
    .error (.snapshotTooLarge (json.marshal snapshot).length)
  else .ok (json.marshal snapshot)

def encodeRecord (recordType : UInt8) (payload : Bytes) : Except EncodeError RawRecord :=
  if large : payload.length > maxRecordPayloadSize then .error (.payloadTooLarge payload.length)
  else .ok { recordType := recordType, payload := payload, small := not_lt.mp large }

/-- The record that stands for an operation. -/
def Record.encode (json : SnapshotJSON) : Record → Except EncodeError RawRecord
  | .state saved => encodeStatePayload saved >>= encodeRecord recordState
  | .entries added => encodeEntriesPayload added >>= encodeRecord recordEntries
  | .snapshot saved => encodeSnapshotPayload json saved >>= encodeRecord recordSnapshot
  | .replaceSuffix start added =>
      encodeReplaceSuffixPayload start added >>= encodeRecord recordReplaceSuffix

/-! Decoding. -/

def readUint (width : ℕ) (reader : Bytes) (error : PayloadError) : Except PayloadError (ℕ × Bytes) :=
  match readBigEndian width reader with
  | none => .error error
  | some read => .ok read

def readFlag (reader : Bytes) (error : PayloadError) : Except PayloadError (UInt8 × Bytes) :=
  match reader with
  | [] => .error error
  | byte :: rest => .ok (byte, rest)

def asConfiguration : Except ConfigEntryError (List NodeID × Bytes) → Except PayloadError (Configuration × Bytes)
  | .error error => .error (.voters error)
  | .ok (voters, reader) => .ok ({ voters := voters }, reader)

/-- The loop over the voters is that of the configuration entries, with the same limits. -/
def decodeConfiguration (reader : Bytes) : Except PayloadError (Configuration × Bytes) := do
  let (voterCount, reader) ← readUint 4 reader .readVoterCount
  if voterCount > maxWALConfigurationVoters then .error (.tooManyVoters voterCount)
  else asConfiguration (decodeVoters voterCount 0 [] reader)

def decodeJoint (reader : Bytes) : Except PayloadError (Option JointConfiguration × Bytes) := do
  let (jointFlag, reader) ← readFlag reader .readJointFlag
  if jointFlag = 0 then .ok (none, reader)
  else if jointFlag = 1 then
    let (old, reader) ← decodeConfiguration reader
    let (new, reader) ← decodeConfiguration reader
    .ok (some { old := old, new := new }, reader)
  else .error (.jointFlag jointFlag)

def decodeMembership (reader : Bytes) : Except PayloadError (Membership × Bytes) := do
  let (magic, reader) ← readUint 4 reader .readMagic
  if magic ≠ stateMembershipMagic then .error (.invalidMagic magic)
  else
    let (version, reader) ← readFlag reader .readVersion
    if version ≠ stateMembershipVersion then .error (.version version)
    else
      let (current, reader) ← decodeConfiguration reader
      let (joint, reader) ← decodeJoint reader
      .ok ({ current := current, joint := joint }, reader)

/-- Old records end after the vote. -/
def decodeStatePayload (payload : Bytes) : Except PayloadError PersistentState := do
  let (term, reader) ← readUint 8 payload .readTerm
  let (votedForLength, reader) ← readUint 4 reader .readVotedForLength
  if votedForLength > reader.length then .error (.votedForLength votedForLength reader.length)
  else
    let votedFor := nodeIDOfBytes (reader.take votedForLength)
    let reader := reader.drop votedForLength
    if reader.length = 0 then
      .ok { currentTerm := term, votedFor := votedFor, membership := Contents.empty.state.membership }
    else
      let (membership, reader) ← decodeMembership reader
      if reader.length ≠ 0 then .error (.trailing reader.length)
      else .ok { currentTerm := term, votedFor := votedFor, membership := membership }

def decodeEntry (position : ℕ) (reader : Bytes) : Except PayloadError (LogEntry × Bytes) := do
  let (index, reader) ← readUint 8 reader (.readEntryIndex position)
  let (term, reader) ← readUint 8 reader (.readEntryTerm position)
  let (dataLength, reader) ← readUint 4 reader (.readDataLength position)
  if dataLength > reader.length then .error (.dataLength position dataLength reader.length)
  else .ok ({ index := index, term := term, data := reader.take dataLength }, reader.drop dataLength)

def decodeEntriesFrom : ℕ → ℕ → Bytes → Except PayloadError (List LogEntry × Bytes)
  | 0, _, reader => .ok ([], reader)
  | remaining + 1, position, reader => do
      let (entry, reader) ← decodeEntry position reader
      let (rest, reader) ← decodeEntriesFrom remaining (position + 1) reader
      .ok (entry :: rest, reader)

/-- What `decodeEntriesPayload` and `decodeReplaceSuffixPayload` have in common. -/
def decodeCountedEntries (reader : Bytes) : Except PayloadError (List LogEntry) := do
  let (entryCount, reader) ← readUint 4 reader .readEntryCount
  if entryCount > reader.length / minimumEntrySize then .error (.entryCount entryCount reader.length)
  else
    let (entries, reader) ← decodeEntriesFrom entryCount 0 reader
    if reader.length ≠ 0 then .error (.trailing reader.length) else .ok entries

def decodeEntriesPayload (payload : Bytes) : Except PayloadError (List LogEntry) := do
  let entries ← decodeCountedEntries payload
  match validateEntries entries with
  | .error error => .error (.entries error)
  | .ok () => .ok entries

def decodeReplaceSuffixPayload (payload : Bytes) : Except PayloadError (ℕ × List LogEntry) := do
  let (start, reader) ← readUint 8 payload .readFrom
  let entries ← decodeCountedEntries reader
  .ok (start, entries)

def decodeSnapshotPayload (json : SnapshotJSON) (payload : Bytes) : Except PayloadError Snapshot :=
  match json.unmarshal payload with
  | none => .error .snapshot
  | some snapshot => .ok snapshot

inductive DecodeError where
  | payload (error : PayloadError)
  | unknownType (recordType : UInt8)
deriving DecidableEq, Repr

def asRecord {α : Type} (make : α → Record) : Except PayloadError α → Except DecodeError Record
  | .error error => .error (.payload error)
  | .ok value => .ok (make value)

def RawRecord.decode (json : SnapshotJSON) (raw : RawRecord) : Except DecodeError Record :=
  if raw.recordType = recordState then asRecord .state (decodeStatePayload raw.payload)
  else if raw.recordType = recordEntries then asRecord .entries (decodeEntriesPayload raw.payload)
  else if raw.recordType = recordSnapshot then asRecord .snapshot (decodeSnapshotPayload json raw.payload)
  else if raw.recordType = recordReplaceSuffix then
    asRecord (fun (start, entries) => .replaceSuffix start entries) (decodeReplaceSuffixPayload raw.payload)
  else .error (.unknownType raw.recordType)

end Raftiq
