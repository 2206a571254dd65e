import Raftiq.Storage.Recovery
import Raftiq.Storage.Survivors

namespace Raftiq

/-! Which files recovery accepts. -/

theorem checkVoters_ok {voter : ℕ} {seen voters : List NodeID}
    (checked : validateConfiguration.checkVoters voter seen voters = .ok ()) :
    (∀ id ∈ voters, id ≠ "" ∧ id.length ≤ maxConfigurationNodeID ∧ id ∉ seen) ∧ voters.Nodup := by
  induction voters generalizing voter seen with
  | nil => exact ⟨(fun _ member => nomatch member), List.nodup_nil⟩
  | cons id rest ih =>
      unfold validateConfiguration.checkVoters at checked
      split at checked
      · cases checked
      · rename_i some
        split at checked
        · cases checked
        · rename_i short
          split at checked
          · cases checked
          · rename_i new
            obtain ⟨each, nodup⟩ := ih checked
            refine ⟨List.forall_mem_cons.mpr ⟨⟨some, not_lt.mp short, new⟩, fun other member => ?_⟩, ?_⟩
            · obtain ⟨someToo, shortToo, newToo⟩ := each other member
              exact ⟨someToo, shortToo, fun old => newToo (List.mem_cons_of_mem id old)⟩
            · exact List.nodup_cons.mpr ⟨fun member => (each id member).2.2 List.mem_cons_self, nodup⟩

theorem validateConfiguration_ok {configuration : Configuration}
    (validated : validateConfiguration configuration = .ok ()) : configuration.Decodable := by
  unfold validateConfiguration at validated
  split at validated
  · cases validated
  · split at validated
    · cases validated
    · rename_i few
      obtain ⟨each, nodup⟩ := checkVoters_ok validated
      exact ⟨not_lt.mp few, fun voter member => ⟨(each voter member).1, (each voter member).2.1⟩, nodup⟩

theorem isByteString_nodeIDOfBytes (bytes : Bytes) : IsByteString (nodeIDOfBytes bytes) := by
  intro character member
  rw [nodeIDOfBytes, String.toList_ofList] at member
  obtain ⟨byte, _, rfl⟩ := List.mem_map.mp member
  rw [toNat_charOfByte]
  exact byte.toNat_lt

theorem decodeVoters_representable {remaining voter : ℕ} {seen voters : List NodeID} {reader rest : Bytes}
    (decoded : decodeVoters remaining voter seen reader = .ok (voters, rest))
    (representable : ∀ id ∈ seen, IsByteString id) : ∀ id ∈ voters, IsByteString id := by
  induction remaining generalizing voter seen reader with
  | zero =>
      cases decoded
      exact representable
  | succ remaining ih =>
      unfold decodeVoters at decoded
      obtain ⟨⟨idLength, reader⟩, _, decoded⟩ := bind_eq_ok decoded
      dsimp only at decoded
      split at decoded
      · cases decoded
      · split at decoded
        · cases decoded
        · split at decoded
          · cases decoded
          · split at decoded
            · cases decoded
            · refine ih decoded fun id member => ?_
              rcases List.mem_append.mp member with old | new
              · exact representable id old
              · rw [List.mem_singleton.mp new]
                exact isByteString_nodeIDOfBytes _

/-- What the decoders of configuration entries accept. -/
def Configuration.Accepted (configuration : Configuration) : Prop :=
  configuration.Decodable ∧ configuration.Representable

theorem decodeConfigurationPayload_ok {reader rest : Bytes} {configuration : Configuration}
    (decoded : decodeConfigurationPayload reader = .ok (configuration, rest)) : configuration.Accepted := by
  obtain ⟨⟨voterCount, reader⟩, _, decoded⟩ := bind_eq_ok decoded
  dsimp only at decoded
  split at decoded
  · cases decoded
  · split at decoded
    · cases decoded
    · obtain ⟨⟨voters, reader⟩, read, decoded⟩ := bind_eq_ok decoded
      obtain ⟨_, validated, decoded⟩ := bind_eq_ok decoded
      cases decoded
      exact ⟨validateConfiguration_ok validated, decodeVoters_representable read fun _ none => nomatch none⟩

theorem within_ok {α : Type} {wrap : ConfigEntryError → ConfigEntryError} {result : Except ConfigEntryError α}
    {value : α} (succeeded : within wrap result = .ok value) : result = .ok value := by
  cases result with
  | error error => cases succeeded
  | ok found => exact succeeded

theorem decodeConfigurationEntry_ok {data : Bytes} {configuration : Configuration}
    (decoded : decodeConfigurationEntry data = .ok configuration) : configuration.Accepted := by
  unfold decodeConfigurationEntry at decoded
  split at decoded
  · cases decoded
  · split at decoded
    · cases decoded
    · obtain ⟨reader, _, decoded⟩ := bind_eq_ok decoded
      obtain ⟨⟨voterCount, reader⟩, _, decoded⟩ := bind_eq_ok decoded
      dsimp only at decoded
      split at decoded
      · cases decoded
      · split at decoded
        · cases decoded
        · obtain ⟨⟨voters, reader⟩, read, decoded⟩ := bind_eq_ok decoded
          obtain ⟨_, _, decoded⟩ := bind_eq_ok decoded
          obtain ⟨_, validated, decoded⟩ := bind_eq_ok decoded
          cases decoded
          exact ⟨validateConfiguration_ok validated,
            decodeVoters_representable read fun _ none => nomatch none⟩

theorem decodeEnterJointConfigurationEntry_ok {data : Bytes} {old new : Configuration}
    (decoded : decodeEnterJointConfigurationEntry data = .ok (old, new)) : old.Accepted ∧ new.Accepted := by
  unfold decodeEnterJointConfigurationEntry at decoded
  split at decoded
  · cases decoded
  · obtain ⟨reader, _, decoded⟩ := bind_eq_ok decoded
    obtain ⟨⟨first, reader⟩, oldDecoded, decoded⟩ := bind_eq_ok decoded
    obtain ⟨⟨second, reader⟩, newDecoded, decoded⟩ := bind_eq_ok decoded
    obtain ⟨_, _, decoded⟩ := bind_eq_ok decoded
    cases decoded
    exact ⟨decodeConfigurationPayload_ok (within_ok oldDecoded),
      decodeConfigurationPayload_ok (within_ok newDecoded)⟩

theorem decodeLeaveJointConfigurationEntry_ok {data : Bytes} {configuration : Configuration}
    (decoded : decodeLeaveJointConfigurationEntry data = .ok configuration) : configuration.Accepted := by
  unfold decodeLeaveJointConfigurationEntry at decoded
  split at decoded
  · cases decoded
  · obtain ⟨reader, _, decoded⟩ := bind_eq_ok decoded
    obtain ⟨⟨found, reader⟩, newDecoded, decoded⟩ := bind_eq_ok decoded
    obtain ⟨_, _, decoded⟩ := bind_eq_ok decoded
    cases decoded
    exact decodeConfigurationPayload_ok (within_ok newDecoded)

/-- All parts of a membership that comes from a configuration entry are accepted. -/
theorem nextMembership_accepted {entry : LogEntry} {membership : Membership}
    (decoded : nextMembership entry = .ok membership) :
    membership.current.Accepted ∧ ∀ joint, membership.joint = some joint → joint.old.Accepted ∧ joint.new.Accepted := by
  unfold nextMembership at decoded
  split at decoded
  · cases decoded
  · split at decoded
    · split at decoded
      · cases decoded
      · rename_i found
        cases decoded
        exact ⟨decodeConfigurationEntry_ok found, fun _ none => nomatch none⟩
    · split at decoded
      · split at decoded
        · cases decoded
        · rename_i old new found
          cases decoded
          obtain ⟨oldAccepted, newAccepted⟩ := decodeEnterJointConfigurationEntry_ok found
          refine ⟨oldAccepted, fun joint same => ?_⟩
          cases same
          exact ⟨oldAccepted, newAccepted⟩
      · split at decoded
        · split at decoded
          · cases decoded
          · rename_i found
            cases decoded
            exact ⟨decodeLeaveJointConfigurationEntry_ok found, fun _ none => nomatch none⟩
        · cases decoded

/-- A membership that comes from a configuration entry can be read back from the storage. -/
theorem nextMembership_decodable {entry : LogEntry} {membership : Membership}
    (decoded : nextMembership entry = .ok membership) : membership.Decodable := by
  obtain ⟨current, both⟩ := nextMembership_accepted decoded
  exact ⟨current.1, fun joint same => ⟨(both joint same).1.1, (both joint same).2.1⟩⟩

theorem recover_append {contents : Contents} {file : List Record} {record : Record} {result : Contents} :
    recover contents (file ++ [record]) = .ok result ↔
      ∃ middle, recover contents file = .ok middle ∧ record.validateRecovered middle = .ok () ∧
        record.effect middle = result := by
  induction file generalizing contents with
  | nil =>
      rw [List.nil_append, recover_cons]
      simp [recover]
  | cons first rest ih =>
      rw [List.cons_append, recover_cons, ih]
      simp only [recover_cons]
      tauto

/-- The storage can be opened again: every record can be decoded, and recovery accepts it. -/
def WALStorage.Openable (wal : WALStorage) : Prop :=
  (∀ record ∈ wal.file, record.Decodable) ∧ ∃ contents, recover Contents.empty wal.file = .ok contents

namespace WALStorage

variable {wal : WALStorage} {record : Record}

theorem Openable.recovers (openable : wal.Openable) : recover Contents.empty wal.file = .ok wal.contents := by
  obtain ⟨_, contents, recovered⟩ := openable
  rw [recovered, recover_replay recovered, wal.replays]

theorem openEmpty_openable : openEmpty.Openable :=
  ⟨(fun _ member => nomatch member), Contents.empty, rfl⟩

theorem Openable.sync (openable : wal.Openable) : wal.sync.Openable :=
  openable

theorem Openable.appendRecord (openable : wal.Openable) (decodable : record.Decodable)
    (validated : record.validateRecovered wal.contents = .ok ()) : (wal.appendRecord record).Openable := by
  refine ⟨fun other member => ?_, _, recover_append.mpr ⟨_, openable.recovers, validated, rfl⟩⟩
  rcases List.mem_append.mp member with old | new
  · exact openable.1 other old
  · cases List.mem_singleton.mp new
    exact decodable

theorem replay_decodable {contents : Contents} {file : List Record}
    (decodable : ∀ record ∈ file, record.Decodable) (state : contents.state.membership.Decodable) :
    (replay contents file).state.membership.Decodable := by
  induction file generalizing contents with
  | nil => exact state
  | cons record rest ih =>
      obtain ⟨first, decodable⟩ := List.forall_mem_cons.mp decodable
      apply ih decodable
      cases record with
      | state saved => exact first
      | entries _ | snapshot _ | replaceSuffix _ _ => exact state

theorem Openable.membership (openable : wal.Openable) : wal.contents.state.membership.Decodable := by
  rw [← wal.replays]
  exact replay_decodable openable.1
    ⟨⟨by decide, (fun _ member => nomatch member), List.nodup_nil⟩, (fun _ none => nomatch none)⟩

theorem recover_compactedFile {snapshot : Snapshot} {entries : List LogEntry} (state : PersistentState)
    (positive : snapshot.lastIncludedIndex ≠ 0) (valid : validateEntries entries = .ok ()) :
    ∃ contents, recover Contents.empty (compactedFile state snapshot entries) = .ok contents := by
  have fits : validateRecoveredSnapshot none snapshot = .ok () := by
    rw [validateRecoveredSnapshot, if_neg positive]
  unfold compactedFile
  split
  · simp [recover, Record.validateRecovered, Record.effect, Contents.empty, fits]
  · simp [recover, Record.validateRecovered, Record.effect, Contents.empty, fits, valid, validateAppend_nil]

/-- Compaction writes a file that can be opened if the entries stand in a row. -/
theorem Openable.compact {snapshot : Snapshot} {compacted : WALStorage} {base : ℕ} (openable : wal.Openable)
    (numbered : Numbered base wal.contents.entries) (done : wal.compact snapshot = .ok compacted) :
    compacted.Openable := by
  have valid : validateEntries (wal.contents.entries.filter (snapshot.lastIncludedIndex < ·.index)) = .ok () := by
    rw [numbered.filter_index]
    rcases Nat.le_total (snapshot.lastIncludedIndex - base) wal.contents.entries.length with short | long
    · exact (numbered.drop _ short).validates
    · rw [List.drop_of_length_le long]
      rfl
  obtain ⟨_, _, _, _, positive, _⟩ := compact_ok done
  unfold Openable
  rw [compact_file done]
  exact ⟨forall_mem_compactedFile openable.membership trivial valid,
    recover_compactedFile _ (Nat.ne_of_gt positive) valid⟩

end WALStorage

end Raftiq
