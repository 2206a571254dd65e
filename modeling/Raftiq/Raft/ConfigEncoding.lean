import Raftiq.Storage.Openable

namespace Raftiq

/-! Configuration entries as the leader writes them. -/

def encodeConfigurationPayload (configuration : Configuration) : Bytes :=
  bigEndianBytes 4 configuration.voters.length ++ configuration.voters.flatMap voterLayout

def configurationEntryEnvelope (entryType : UInt8) : Bytes :=
  bigEndianBytes 4 configurationEntryMagic ++ [configurationEntryVersion, entryType]

def encodeEnterJointConfigurationEntry (old new : Configuration) : Except ConfigEntryError Bytes := do
  within .inOld (validateConfiguration old)
  within .inNew (validateConfiguration new)
  let data := configurationEntryEnvelope configurationEntryTypeEnterJoint ++
    (encodeConfigurationPayload old ++ encodeConfigurationPayload new)
  if data.length > maxConfigurationPayload then .error .tooLarge else .ok data

def encodeLeaveJointConfigurationEntry (new : Configuration) : Except ConfigEntryError Bytes := do
  within .inNew (validateConfiguration new)
  let data := configurationEntryEnvelope configurationEntryTypeLeaveJoint ++ encodeConfigurationPayload new
  if data.length > maxConfigurationPayload then .error .tooLarge else .ok data

theorem validateConfigurationEntryEnvelope_layout (entryType : UInt8) (rest : Bytes) :
    validateConfigurationEntryEnvelope (configurationEntryEnvelope entryType ++ rest) entryType = .ok rest := by
  have small : configurationEntryMagic < 256 ^ 4 := by decide
  rw [configurationEntryEnvelope, List.append_assoc, validateConfigurationEntryEnvelope, readUint32_bytes small]
  simp [bind, Except.bind, readByte]

theorem isConfigurationEntry_layout (entryType : UInt8) (rest : Bytes) :
    isConfigurationEntry (configurationEntryEnvelope entryType ++ rest) := by
  have magic : (configurationEntryEnvelope entryType ++ rest).take 4 =
      bigEndianBytes 4 configurationEntryMagic := by
    rw [configurationEntryEnvelope, List.append_assoc, List.take_left' (bigEndianBytes_length 4 _)]
  have small : configurationEntryMagic < 256 ^ 4 := by decide
  unfold isConfigurationEntry
  rw [if_neg (by simp [configurationEntryEnvelope]), magic, bigEndian_of_lt small]
  exact decide_eq_true rfl

theorem entryType_layout (entryType : UInt8) (rest : Bytes) :
    (configurationEntryEnvelope entryType ++ rest)[5]? = some entryType := by
  simp [configurationEntryEnvelope, bigEndianBytes]

theorem decodeConfigurationPayload_layout {configuration : Configuration}
    (validated : validateConfiguration configuration = .ok ()) (representable : configuration.Representable)
    (rest : Bytes) :
    decodeConfigurationPayload (encodeConfigurationPayload configuration ++ rest) =
      .ok (configuration, rest) := by
  obtain ⟨few, each, nodup⟩ := validateConfiguration_ok validated
  have some : configuration.voters.length ≠ 0 := by
    intro none
    rw [validateConfiguration, if_pos none] at validated
    cases validated
  have small : configuration.voters.length < 256 ^ 4 := by
    unfold maxWALConfigurationVoters at few
    omega
  have short : ∀ voter ∈ configuration.voters, voter.length ≤ maxUint32 := by
    intro voter member
    exact (each voter member).2.trans (by decide)
  have voters := (decodeVoters_layout representable short 0 [] rest).ok
    ⟨fun voter member => ⟨(each voter member).1, (each voter member).2, List.not_mem_nil⟩, nodup⟩
  rw [encodeConfigurationPayload, List.append_assoc, decodeConfigurationPayload, readUint32_bytes small]
  simp only [bind, Except.bind]
  rw [if_neg some, if_neg (show ¬ configuration.voters.length > maxConfigurationVoters from not_lt.mpr few), voters]
  simp only [List.nil_append, validated]

theorem decodeEnterJointConfigurationEntry_layout {old new : Configuration} {data : Bytes}
    (encoded : encodeEnterJointConfigurationEntry old new = .ok data) (representableOld : old.Representable)
    (representableNew : new.Representable) :
    (∃ rest, data = configurationEntryEnvelope configurationEntryTypeEnterJoint ++ rest) ∧
      decodeEnterJointConfigurationEntry data = .ok (old, new) := by
  obtain ⟨_, validOld, encoded⟩ := bind_eq_ok encoded
  obtain ⟨_, validNew, encoded⟩ := bind_eq_ok encoded
  dsimp only at encoded
  split at encoded
  · cases encoded
  · rename_i short
    cases encoded
    have first := decodeConfigurationPayload_layout (within_ok validOld) representableOld
      (encodeConfigurationPayload new)
    have second := decodeConfigurationPayload_layout (within_ok validNew) representableNew []
    rw [List.append_nil] at second
    refine ⟨⟨_, rfl⟩, ?_⟩
    rw [decodeEnterJointConfigurationEntry, if_neg short, validateConfigurationEntryEnvelope_layout]
    simp only [bind, Except.bind, first, second, within]
    rfl

theorem decodeLeaveJointConfigurationEntry_layout {new : Configuration} {data : Bytes}
    (encoded : encodeLeaveJointConfigurationEntry new = .ok data) (representable : new.Representable) :
    (∃ rest, data = configurationEntryEnvelope configurationEntryTypeLeaveJoint ++ rest) ∧
      decodeLeaveJointConfigurationEntry data = .ok new := by
  obtain ⟨_, valid, encoded⟩ := bind_eq_ok encoded
  dsimp only at encoded
  split at encoded
  · cases encoded
  · rename_i short
    cases encoded
    have decoded := decodeConfigurationPayload_layout (within_ok valid) representable []
    rw [List.append_nil] at decoded
    refine ⟨⟨_, rfl⟩, ?_⟩
    rw [decodeLeaveJointConfigurationEntry, if_neg short, validateConfigurationEntryEnvelope_layout]
    simp only [bind, Except.bind, decoded, within]
    rfl

/-- What a leader proposes to enter a joint configuration is what every node applies. -/
theorem nextMembership_enterJoint {old new : Configuration} {data : Bytes}
    (encoded : encodeEnterJointConfigurationEntry old new = .ok data) (representableOld : old.Representable)
    (representableNew : new.Representable) (index term : ℕ) :
    isConfigurationEntry data ∧ nextMembership ⟨index, term, data⟩ =
      .ok { current := old, joint := some { old := old, new := new } } := by
  obtain ⟨⟨rest, layout⟩, decoded⟩ :=
    decodeEnterJointConfigurationEntry_layout encoded representableOld representableNew
  constructor
  · rw [layout]
    exact isConfigurationEntry_layout _ _
  · have entryType : data[5]? = some configurationEntryTypeEnterJoint := by
      rw [layout, entryType_layout]
    simp only [nextMembership, entryType]
    rw [if_neg (by decide), if_true, decoded]

theorem nextMembership_leaveJoint {new : Configuration} {data : Bytes}
    (encoded : encodeLeaveJointConfigurationEntry new = .ok data) (representable : new.Representable)
    (index term : ℕ) :
    isConfigurationEntry data ∧ nextMembership ⟨index, term, data⟩ = .ok { current := new, joint := none } := by
  obtain ⟨⟨rest, layout⟩, decoded⟩ := decodeLeaveJointConfigurationEntry_layout encoded representable
  constructor
  · rw [layout]
    exact isConfigurationEntry_layout _ _
  · have entryType : data[5]? = some configurationEntryTypeLeaveJoint := by
      rw [layout, entryType_layout]
    simp only [nextMembership, entryType]
    rw [if_neg (by decide), if_neg (by decide), if_true, decoded]

end Raftiq
