import Raftiq.Encoding.BigEndian
import Raftiq.Types

namespace Raftiq

/-! Membership changes travel through the log as entries with an envelope of their
own.  A Go string is a byte string; its bytes become the characters of a `NodeID`. -/

def configurationEntryMagic : ℕ := 0x52434647

def configurationEntryVersion : UInt8 := 1

def configurationEntryTypeStable : UInt8 := 1

def configurationEntryTypeEnterJoint : UInt8 := 2

def configurationEntryTypeLeaveJoint : UInt8 := 3

def configurationEntryHeaderSize : ℕ := 4 + 1 + 1 + 4

def maxConfigurationVoters : ℕ := 1024

def maxConfigurationNodeID : ℕ := 1024

def maxConfigurationPayload : ℕ := 2 ^ 20

inductive ConfigEntryError where
  | truncated
  | tooLarge
  | readMagic
  | invalidMagic
  | readVersion
  | unsupportedVersion (version : UInt8)
  | readType
  | unexpectedType (entryType : UInt8)
  | readVoterCount
  | noVoters
  | tooManyVoters (count : ℕ)
  | readIDLength (voter : ℕ)
  | emptyID (voter : ℕ)
  | idTooLong (voter length : ℕ)
  | idTruncated (voter : ℕ)
  | duplicateID (voterID : NodeID)
  | trailingData
  | inOld (error : ConfigEntryError)
  | inNew (error : ConfigEntryError)
deriving DecidableEq, Repr

def readUint32 (reader : Bytes) (error : ConfigEntryError) : Except ConfigEntryError (ℕ × Bytes) :=
  if reader.length < 4 then .error error else .ok (bigEndian (reader.take 4), reader.drop 4)

def readByte (reader : Bytes) (error : ConfigEntryError) : Except ConfigEntryError (UInt8 × Bytes) :=
  match reader with
  | [] => .error error
  | byte :: rest => .ok (byte, rest)

def nodeIDOfBytes (bytes : Bytes) : NodeID :=
  String.ofList (bytes.map fun byte => Char.ofNat byte.toNat)

theorem toNat_charOfByte (byte : UInt8) : (Char.ofNat byte.toNat).toNat = byte.toNat := by
  have small := byte.toNat_lt
  have valid : byte.toNat.isValidChar := Or.inl (by omega)
  rw [Char.ofNat, dif_pos valid]
  rfl

def isConfigurationEntry (data : Bytes) : Bool :=
  if data.length < 4 then false else decide (bigEndian (data.take 4) = configurationEntryMagic)

def validateConfiguration (configuration : Configuration) : Except ConfigEntryError Unit :=
  if configuration.voters.length = 0 then .error .noVoters
  else if configuration.voters.length > maxConfigurationVoters then
    .error (.tooManyVoters configuration.voters.length)
  else checkVoters 0 [] configuration.voters
where
  checkVoters : ℕ → List NodeID → List NodeID → Except ConfigEntryError Unit
    | _, _, [] => .ok ()
    | voter, seen, voterID :: rest =>
        if voterID = "" then .error (.emptyID voter)
        else if voterID.length > maxConfigurationNodeID then .error (.idTooLong voter voterID.length)
        else if voterID ∈ seen then .error (.duplicateID voterID)
        else checkVoters (voter + 1) (voterID :: seen) rest

def decodeVoters : ℕ → ℕ → List NodeID → Bytes → Except ConfigEntryError (List NodeID × Bytes)
  | 0, _, voters, reader => .ok (voters, reader)
  | remaining + 1, voter, voters, reader => do
      let (idLength, reader) ← readUint32 reader (.readIDLength voter)
      if idLength = 0 then .error (.emptyID voter)
      else if idLength > maxConfigurationNodeID then .error (.idTooLong voter idLength)
      else if idLength > reader.length then .error (.idTruncated voter)
      else
        let voterID := nodeIDOfBytes (reader.take idLength)
        if voterID ∈ voters then .error (.duplicateID voterID)
        else decodeVoters remaining (voter + 1) (voters ++ [voterID]) (reader.drop idLength)

def decodeConfigurationPayload (reader : Bytes) : Except ConfigEntryError (Configuration × Bytes) := do
  let (voterCount, reader) ← readUint32 reader .readVoterCount
  if voterCount = 0 then .error .noVoters
  else if voterCount > maxConfigurationVoters then .error (.tooManyVoters voterCount)
  else
    let (voters, reader) ← decodeVoters voterCount 0 [] reader
    validateConfiguration { voters := voters }
    .ok ({ voters := voters }, reader)

def validateConfigurationEntryEnvelope (reader : Bytes) (expectedType : UInt8) :
    Except ConfigEntryError Bytes := do
  let (magic, reader) ← readUint32 reader .readMagic
  if magic ≠ configurationEntryMagic then .error .invalidMagic
  else
    let (version, reader) ← readByte reader .readVersion
    if version ≠ configurationEntryVersion then .error (.unsupportedVersion version)
    else
      let (entryType, reader) ← readByte reader .readType
      if entryType ≠ expectedType then .error (.unexpectedType entryType) else .ok reader

def expectEnd (reader : Bytes) : Except ConfigEntryError Unit :=
  if reader.length ≠ 0 then .error .trailingData else .ok ()

def within (wrap : ConfigEntryError → ConfigEntryError) {α : Type}
    (result : Except ConfigEntryError α) : Except ConfigEntryError α :=
  match result with
  | .ok value => .ok value
  | .error error => .error (wrap error)

/-- The stable decoder reports trailing data before it validates the voters. -/
def decodeConfigurationEntry (data : Bytes) : Except ConfigEntryError Configuration := do
  if data.length < configurationEntryHeaderSize then .error .truncated
  else if data.length > maxConfigurationPayload then .error .tooLarge
  else
    let reader ← validateConfigurationEntryEnvelope data configurationEntryTypeStable
    let (voterCount, reader) ← readUint32 reader .readVoterCount
    if voterCount = 0 then .error .noVoters
    else if voterCount > maxConfigurationVoters then .error (.tooManyVoters voterCount)
    else
      let (voters, reader) ← decodeVoters voterCount 0 [] reader
      expectEnd reader
      validateConfiguration { voters := voters }
      .ok { voters := voters }

def decodeEnterJointConfigurationEntry (data : Bytes) :
    Except ConfigEntryError (Configuration × Configuration) := do
  if data.length > maxConfigurationPayload then .error .tooLarge
  else
    let reader ← validateConfigurationEntryEnvelope data configurationEntryTypeEnterJoint
    let (old, reader) ← within .inOld (decodeConfigurationPayload reader)
    let (new, reader) ← within .inNew (decodeConfigurationPayload reader)
    expectEnd reader
    .ok (old, new)

def decodeLeaveJointConfigurationEntry (data : Bytes) : Except ConfigEntryError Configuration := do
  if data.length > maxConfigurationPayload then .error .tooLarge
  else
    let reader ← validateConfigurationEntryEnvelope data configurationEntryTypeLeaveJoint
    let (new, reader) ← within .inNew (decodeConfigurationPayload reader)
    expectEnd reader
    .ok new

inductive ApplyError where
  | truncated (index : ℕ)
  | decode (index : ℕ) (error : ConfigEntryError)
  | unknownType (entryType : UInt8) (index : ℕ)
deriving DecidableEq, Repr

/-- The membership a configuration entry asks for. -/
def nextMembership (entry : LogEntry) : Except ApplyError Membership :=
  match entry.data[5]? with
  | none => .error (.truncated entry.index)
  | some entryType =>
      if entryType = configurationEntryTypeStable then
        match decodeConfigurationEntry entry.data with
        | .error error => .error (.decode entry.index error)
        | .ok configuration => .ok { current := configuration, joint := none }
      else if entryType = configurationEntryTypeEnterJoint then
        match decodeEnterJointConfigurationEntry entry.data with
        | .error error => .error (.decode entry.index error)
        | .ok (old, new) => .ok { current := old, joint := some { old := old, new := new } }
      else if entryType = configurationEntryTypeLeaveJoint then
        match decodeLeaveJointConfigurationEntry entry.data with
        | .error error => .error (.decode entry.index error)
        | .ok configuration => .ok { current := configuration, joint := none }
      else .error (.unknownType entryType entry.index)

end Raftiq
