import Raftiq.Raft.ConfigEncoding

namespace Raftiq

/-! Configuration entries are read exactly as they are written. -/

def encodeConfigurationEntry (configuration : Configuration) : Except ConfigEntryError Bytes := do
  validateConfiguration configuration
  let data := configurationEntryEnvelope configurationEntryTypeStable ++ encodeConfigurationPayload configuration
  if data.length > maxConfigurationPayload then .error .tooLarge else .ok data

theorem readUint32_ok_iff {value : ℕ} {reader rest : Bytes} {error : ConfigEntryError} :
    readUint32 reader error = .ok (value, rest) ↔
      value < 256 ^ 4 ∧ reader = bigEndianBytes 4 value ++ rest := by
  rw [← readBigEndian_some_iff, readUint32, readBigEndian]
  split
  · simp
  · simp

theorem bytesOfNodeID_nodeIDOfBytes (bytes : Bytes) : bytesOfNodeID (nodeIDOfBytes bytes) = bytes := by
  rw [bytesOfNodeID, nodeIDOfBytes, String.toList_ofList, List.map_map]
  refine (List.map_congr_left fun byte _ => ?_).trans (List.map_id' _)
  rw [Function.comp_apply, toNat_charOfByte, UInt8.ofNat_toNat]

/-- The voters that have been read stand there in this order. -/
theorem decodeVoters_exact {count position : ℕ} {seen voters : List NodeID} {reader rest : Bytes}
    (decoded : decodeVoters count position seen reader = .ok (voters, rest)) :
    ∃ added, voters = seen ++ added ∧ added.length = count ∧ reader = added.flatMap voterLayout ++ rest := by
  induction count generalizing position seen reader with
  | zero =>
      cases decoded
      exact ⟨[], by simp⟩
  | succ count ih =>
      obtain ⟨⟨idLength, afterLength⟩, readLength, decoded⟩ := bind_eq_ok decoded
      dsimp only at decoded
      split at decoded
      · cases decoded
      · split at decoded
        · cases decoded
        · split at decoded
          · cases decoded
          · rename_i inside
            split at decoded
            · cases decoded
            · obtain ⟨added, rfl, rfl, following⟩ := ih decoded
              obtain ⟨_, rfl⟩ := readUint32_ok_iff.mp readLength
              have length : (afterLength.take idLength).length = idLength := by
                rw [List.length_take]
                omega
              refine ⟨nodeIDOfBytes (afterLength.take idLength) :: added, by simp, rfl, ?_⟩
              rw [List.flatMap_cons, voterLayout, bytesOfNodeID_nodeIDOfBytes, length, List.append_assoc,
                List.append_assoc, ← following, List.take_append_drop]

theorem validateConfigurationEntryEnvelope_exact {data rest : Bytes} {entryType : UInt8}
    (validated : validateConfigurationEntryEnvelope data entryType = .ok rest) :
    data = configurationEntryEnvelope entryType ++ rest := by
  obtain ⟨⟨magic, afterMagic⟩, readMagic, validated⟩ := bind_eq_ok validated
  dsimp only at validated
  split at validated
  · cases validated
  · rename_i sameMagic
    obtain ⟨⟨version, afterVersion⟩, readVersion, validated⟩ := bind_eq_ok validated
    dsimp only at validated
    split at validated
    · cases validated
    · rename_i sameVersion
      obtain ⟨⟨type, afterType⟩, readType, validated⟩ := bind_eq_ok validated
      dsimp only at validated
      split at validated
      · cases validated
      · rename_i sameType
        cases validated
        obtain ⟨_, rfl⟩ := readUint32_ok_iff.mp readMagic
        cases afterMagic with
        | nil => cases readVersion
        | cons first others =>
            cases readVersion
            cases afterVersion with
            | nil => cases readType
            | cons second others =>
                cases readType
                rw [not_not.mp sameMagic, not_not.mp sameVersion, not_not.mp sameType]
                simp [configurationEntryEnvelope]

theorem decodeConfigurationPayload_exact {reader rest : Bytes} {configuration : Configuration}
    (decoded : decodeConfigurationPayload reader = .ok (configuration, rest)) :
    reader = encodeConfigurationPayload configuration ++ rest ∧ validateConfiguration configuration = .ok () := by
  obtain ⟨⟨voterCount, afterCount⟩, readCount, decoded⟩ := bind_eq_ok decoded
  dsimp only at decoded
  split at decoded
  · cases decoded
  · split at decoded
    · cases decoded
    · obtain ⟨⟨voters, afterVoters⟩, readVoters, decoded⟩ := bind_eq_ok decoded
      obtain ⟨_, validated, decoded⟩ := bind_eq_ok decoded
      cases decoded
      obtain ⟨_, rfl⟩ := readUint32_ok_iff.mp readCount
      obtain ⟨added, rfl, rfl, rfl⟩ := decodeVoters_exact readVoters
      exact ⟨by simp [encodeConfigurationPayload], validated⟩

theorem expectEnd_ok {reader : Bytes} {done : Unit} (ends : expectEnd reader = .ok done) : reader = [] := by
  unfold expectEnd at ends
  split at ends
  · cases ends
  · rename_i empty
    exact List.length_eq_zero_iff.mp (not_not.mp empty)

theorem decodeConfigurationEntry_layout {configuration : Configuration} {data : Bytes}
    (encoded : encodeConfigurationEntry configuration = .ok data) (representable : configuration.Representable) :
    (∃ rest, data = configurationEntryEnvelope configurationEntryTypeStable ++ rest) ∧
      decodeConfigurationEntry data = .ok configuration := by
  obtain ⟨_, valid, encoded⟩ := bind_eq_ok encoded
  dsimp only at encoded
  split at encoded
  · cases encoded
  · rename_i short
    cases encoded
    have long : ¬ (configurationEntryEnvelope configurationEntryTypeStable ++
        encodeConfigurationPayload configuration).length < configurationEntryHeaderSize := by
      simp [configurationEntryEnvelope, encodeConfigurationPayload, configurationEntryHeaderSize]
      omega
    -- The payload is read by the same steps as in the joint decoders.
    have decoded := decodeConfigurationPayload_layout valid representable []
    rw [List.append_nil] at decoded
    obtain ⟨⟨voterCount, afterCount⟩, readCount, decoded⟩ := bind_eq_ok decoded
    refine ⟨⟨_, rfl⟩, ?_⟩
    rw [decodeConfigurationEntry, if_neg long, if_neg short, validateConfigurationEntryEnvelope_layout]
    dsimp only at decoded
    simp only [bind, Except.bind, readCount]
    split at decoded
    · cases decoded
    · rename_i some
      split at decoded
      · cases decoded
      · rename_i few
        obtain ⟨⟨voters, afterVoters⟩, readVoters, decoded⟩ := bind_eq_ok decoded
        obtain ⟨_, validated, decoded⟩ := bind_eq_ok decoded
        cases decoded
        rw [if_neg some, if_neg few, readVoters]
        simp only [expectEnd, List.length_nil, ne_eq, not_true_eq_false, if_false, validated]

theorem decodeConfigurationEntry_exact {data : Bytes} {configuration : Configuration}
    (decoded : decodeConfigurationEntry data = .ok configuration) :
    encodeConfigurationEntry configuration = .ok data ∧ validateConfiguration configuration = .ok () := by
  unfold decodeConfigurationEntry at decoded
  split at decoded
  · cases decoded
  · split at decoded
    · cases decoded
    · rename_i short
      obtain ⟨payload, envelope, decoded⟩ := bind_eq_ok decoded
      obtain ⟨⟨voterCount, afterCount⟩, readCount, decoded⟩ := bind_eq_ok decoded
      dsimp only at decoded
      split at decoded
      · cases decoded
      · split at decoded
        · cases decoded
        · obtain ⟨⟨voters, afterVoters⟩, readVoters, decoded⟩ := bind_eq_ok decoded
          obtain ⟨_, ends, decoded⟩ := bind_eq_ok decoded
          obtain ⟨_, validated, decoded⟩ := bind_eq_ok decoded
          cases decoded
          obtain ⟨_, rfl⟩ := readUint32_ok_iff.mp readCount
          obtain ⟨added, rfl, rfl, rfl⟩ := decodeVoters_exact readVoters
          have nothing : afterVoters = [] := expectEnd_ok ends
          rw [nothing, List.append_nil] at envelope
          have layout := validateConfigurationEntryEnvelope_exact envelope
          refine ⟨?_, validated⟩
          rw [layout] at short ⊢
          simp only [encodeConfigurationEntry, encodeConfigurationPayload, validated, bind, Except.bind]
          exact if_neg short

theorem decodeEnterJointConfigurationEntry_exact {data : Bytes} {old new : Configuration}
    (decoded : decodeEnterJointConfigurationEntry data = .ok (old, new)) :
    encodeEnterJointConfigurationEntry old new = .ok data ∧ validateConfiguration old = .ok () ∧
      validateConfiguration new = .ok () := by
  unfold decodeEnterJointConfigurationEntry at decoded
  split at decoded
  · cases decoded
  · rename_i short
    obtain ⟨payload, envelope, decoded⟩ := bind_eq_ok decoded
    obtain ⟨⟨first, afterOld⟩, readOld, decoded⟩ := bind_eq_ok decoded
    obtain ⟨⟨second, afterNew⟩, readNew, decoded⟩ := bind_eq_ok decoded
    obtain ⟨_, ends, decoded⟩ := bind_eq_ok decoded
    cases decoded
    obtain ⟨rfl, validOld⟩ := decodeConfigurationPayload_exact (within_ok readOld)
    obtain ⟨rfl, validNew⟩ := decodeConfigurationPayload_exact (within_ok readNew)
    have nothing : afterNew = [] := expectEnd_ok ends
    rw [nothing, List.append_nil] at envelope
    have layout := validateConfigurationEntryEnvelope_exact envelope
    refine ⟨?_, validOld, validNew⟩
    rw [layout] at short ⊢
    simp only [encodeEnterJointConfigurationEntry, validOld, validNew, within, bind, Except.bind]
    exact if_neg short

theorem decodeLeaveJointConfigurationEntry_exact {data : Bytes} {new : Configuration}
    (decoded : decodeLeaveJointConfigurationEntry data = .ok new) :
    encodeLeaveJointConfigurationEntry new = .ok data ∧ validateConfiguration new = .ok () := by
  unfold decodeLeaveJointConfigurationEntry at decoded
  split at decoded
  · cases decoded
  · rename_i short
    obtain ⟨payload, envelope, decoded⟩ := bind_eq_ok decoded
    obtain ⟨⟨first, afterNew⟩, readNew, decoded⟩ := bind_eq_ok decoded
    obtain ⟨_, ends, decoded⟩ := bind_eq_ok decoded
    cases decoded
    obtain ⟨rfl, validNew⟩ := decodeConfigurationPayload_exact (within_ok readNew)
    have nothing : afterNew = [] := expectEnd_ok ends
    rw [nothing, List.append_nil] at envelope
    have layout := validateConfigurationEntryEnvelope_exact envelope
    refine ⟨?_, validNew⟩
    rw [layout] at short ⊢
    simp only [encodeLeaveJointConfigurationEntry, validNew, within, bind, Except.bind]
    exact if_neg short

/-! Each decoder refuses the entries of the other types. -/

theorem validateConfigurationEntryEnvelope_other {entryType expectedType : UInt8}
    (other : entryType ≠ expectedType) (rest : Bytes) :
    validateConfigurationEntryEnvelope (configurationEntryEnvelope entryType ++ rest) expectedType =
      .error (.unexpectedType entryType) := by
  have small : configurationEntryMagic < 256 ^ 4 := by decide
  rw [configurationEntryEnvelope, List.append_assoc, validateConfigurationEntryEnvelope, readUint32_bytes small]
  simp [bind, Except.bind, readByte, other]

variable {entryType : UInt8}

theorem decodeConfigurationEntry_other (other : entryType ≠ configurationEntryTypeStable) (rest : Bytes) :
    ∃ error, decodeConfigurationEntry (configurationEntryEnvelope entryType ++ rest) = .error error := by
  unfold decodeConfigurationEntry
  split
  · exact ⟨_, rfl⟩
  · split
    · exact ⟨_, rfl⟩
    · rw [validateConfigurationEntryEnvelope_other other]
      exact ⟨_, rfl⟩

theorem decodeEnterJointConfigurationEntry_other (other : entryType ≠ configurationEntryTypeEnterJoint)
    (rest : Bytes) :
    ∃ error, decodeEnterJointConfigurationEntry (configurationEntryEnvelope entryType ++ rest) = .error error := by
  unfold decodeEnterJointConfigurationEntry
  split
  · exact ⟨_, rfl⟩
  · rw [validateConfigurationEntryEnvelope_other other]
    exact ⟨_, rfl⟩

theorem decodeLeaveJointConfigurationEntry_other (other : entryType ≠ configurationEntryTypeLeaveJoint)
    (rest : Bytes) :
    ∃ error, decodeLeaveJointConfigurationEntry (configurationEntryEnvelope entryType ++ rest) = .error error := by
  unfold decodeLeaveJointConfigurationEntry
  split
  · exact ⟨_, rfl⟩
  · rw [validateConfigurationEntryEnvelope_other other]
    exact ⟨_, rfl⟩

/-- What an encoder writes only its own decoder reads, and gives back; what a decoder accepts is what its
encoder writes. -/
theorem configuration_codecs_exact :
    (∀ configuration data, configuration.Representable → encodeConfigurationEntry configuration = .ok data →
      decodeConfigurationEntry data = .ok configuration ∧
      (∃ error, decodeEnterJointConfigurationEntry data = .error error) ∧
      (∃ error, decodeLeaveJointConfigurationEntry data = .error error) ∧ isConfigurationEntry data) ∧
    (∀ old new data, old.Representable → new.Representable →
      encodeEnterJointConfigurationEntry old new = .ok data →
      decodeEnterJointConfigurationEntry data = .ok (old, new) ∧
      (∃ error, decodeConfigurationEntry data = .error error) ∧
      (∃ error, decodeLeaveJointConfigurationEntry data = .error error) ∧ isConfigurationEntry data) ∧
    (∀ new data, new.Representable → encodeLeaveJointConfigurationEntry new = .ok data →
      decodeLeaveJointConfigurationEntry data = .ok new ∧
      (∃ error, decodeConfigurationEntry data = .error error) ∧
      (∃ error, decodeEnterJointConfigurationEntry data = .error error) ∧ isConfigurationEntry data) ∧
    (∀ data configuration, decodeConfigurationEntry data = .ok configuration →
      encodeConfigurationEntry configuration = .ok data ∧ validateConfiguration configuration = .ok ()) ∧
    (∀ data old new, decodeEnterJointConfigurationEntry data = .ok (old, new) →
      encodeEnterJointConfigurationEntry old new = .ok data ∧ validateConfiguration old = .ok () ∧
        validateConfiguration new = .ok ()) ∧
    (∀ data new, decodeLeaveJointConfigurationEntry data = .ok new →
      encodeLeaveJointConfigurationEntry new = .ok data ∧ validateConfiguration new = .ok ()) := by
  refine ⟨?_, ?_, ?_, fun _ _ => decodeConfigurationEntry_exact,
    fun _ _ _ => decodeEnterJointConfigurationEntry_exact, fun _ _ => decodeLeaveJointConfigurationEntry_exact⟩
  · intro configuration data representable encoded
    obtain ⟨⟨rest, rfl⟩, decoded⟩ := decodeConfigurationEntry_layout encoded representable
    exact ⟨decoded, decodeEnterJointConfigurationEntry_other (by decide) rest,
      decodeLeaveJointConfigurationEntry_other (by decide) rest, isConfigurationEntry_layout _ _⟩
  · intro old new data representableOld representableNew encoded
    obtain ⟨⟨rest, rfl⟩, decoded⟩ :=
      decodeEnterJointConfigurationEntry_layout encoded representableOld representableNew
    exact ⟨decoded, decodeConfigurationEntry_other (by decide) rest,
      decodeLeaveJointConfigurationEntry_other (by decide) rest, isConfigurationEntry_layout _ _⟩
  · intro new data representable encoded
    obtain ⟨⟨rest, rfl⟩, decoded⟩ := decodeLeaveJointConfigurationEntry_layout encoded representable
    exact ⟨decoded, decodeConfigurationEntry_other (by decide) rest,
      decodeEnterJointConfigurationEntry_other (by decide) rest, isConfigurationEntry_layout _ _⟩

/-- The entries of a change from `A` and `B` to `B` and `C`. -/
theorem joint_change_reads_back : ∃ (old new : Configuration) (stable enter leave : Bytes), old ≠ new ∧
    encodeConfigurationEntry old = .ok stable ∧ decodeConfigurationEntry stable = .ok old ∧
    encodeEnterJointConfigurationEntry old new = .ok enter ∧
    decodeEnterJointConfigurationEntry enter = .ok (old, new) ∧
    encodeLeaveJointConfigurationEntry new = .ok leave ∧ decodeLeaveJointConfigurationEntry leave = .ok new ∧
    validateConfiguration old = .ok () ∧ validateConfiguration new = .ok () := by
  let old : Configuration := ⟨["A", "B"]⟩
  let new : Configuration := ⟨["B", "C"]⟩
  have oldBytes : ∀ voter ∈ old.voters, IsByteString voter := by decide +kernel
  have newBytes : ∀ voter ∈ new.voters, IsByteString voter := by decide +kernel
  obtain ⟨stable, encoded⟩ : ∃ stable, encodeConfigurationEntry old = .ok stable := ⟨_, rfl⟩
  obtain ⟨enter, entered⟩ : ∃ enter, encodeEnterJointConfigurationEntry old new = .ok enter := ⟨_, rfl⟩
  obtain ⟨leave, left⟩ : ∃ leave, encodeLeaveJointConfigurationEntry new = .ok leave := ⟨_, rfl⟩
  obtain ⟨readsStable, readsEnter, readsLeave, _, exactEnter, _⟩ := configuration_codecs_exact
  have decoded := (readsEnter old new enter oldBytes newBytes entered).1
  exact ⟨old, new, stable, enter, leave, by decide, encoded, (readsStable old stable oldBytes encoded).1, entered,
    decoded, left, (readsLeave new leave newBytes left).1, (exactEnter enter old new decoded).2⟩

end Raftiq
