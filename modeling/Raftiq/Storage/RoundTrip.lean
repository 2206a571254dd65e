import Raftiq.Encoding.Yields
import Raftiq.Storage.Payload

namespace Raftiq

/-! The values that Go's types can hold, and what reading back their encodings gives. -/

/-- A Go string: every character stands for a byte. -/
def IsByteString (id : NodeID) : Prop :=
  ∀ character ∈ id.toList, character.toNat < 256

instance : DecidablePred IsByteString :=
  fun id => List.decidableBAll (fun character : Char => character.toNat < 256) id.toList

namespace Configuration

def Representable (configuration : Configuration) : Prop :=
  ∀ voter ∈ configuration.voters, IsByteString voter

/-- What the decoders of configurations demand. -/
def Decodable (configuration : Configuration) : Prop :=
  configuration.voters.length ≤ maxWALConfigurationVoters ∧
    (∀ voter ∈ configuration.voters, voter ≠ "" ∧ voter.length ≤ maxConfigurationNodeID) ∧
    configuration.voters.Nodup

end Configuration

namespace Membership

def Representable (membership : Membership) : Prop :=
  membership.current.Representable ∧
    ∀ joint, membership.joint = some joint → joint.old.Representable ∧ joint.new.Representable

def Decodable (membership : Membership) : Prop :=
  membership.current.Decodable ∧
    ∀ joint, membership.joint = some joint → joint.old.Decodable ∧ joint.new.Decodable

end Membership

def PersistentState.Representable (state : PersistentState) : Prop :=
  state.currentTerm < 2 ^ 64 ∧ IsByteString state.votedFor ∧ state.membership.Representable

def LogEntry.Representable (entry : LogEntry) : Prop :=
  entry.index < 2 ^ 64 ∧ entry.term < 2 ^ 64

def Snapshot.Representable (snapshot : Snapshot) : Prop :=
  snapshot.lastIncludedIndex < 2 ^ 64 ∧ snapshot.lastIncludedTerm < 2 ^ 64

/-- The encoding of snapshots can be read back. -/
def SnapshotJSON.RoundTrips (json : SnapshotJSON) : Prop :=
  ∀ snapshot : Snapshot, snapshot.Representable → json.unmarshal (json.marshal snapshot) = some snapshot

namespace Record

def Representable : Record → Prop
  | .state saved => saved.Representable
  | .entries added => ∀ entry ∈ added, entry.Representable
  | .snapshot saved => saved.Representable
  | .replaceSuffix start added => start < 2 ^ 64 ∧ ∀ entry ∈ added, entry.Representable

/-- What the decoder of a record checks beyond its shape. -/
def Decodable : Record → Prop
  | .state saved => saved.membership.Decodable
  | .entries added => validateEntries added = .ok ()
  | .snapshot _ | .replaceSuffix _ _ => True

end Record

theorem nodeIDOfBytes_bytesOfNodeID {id : NodeID} (bytes : IsByteString id) :
    nodeIDOfBytes (bytesOfNodeID id) = id := by
  have each : ∀ character ∈ id.toList,
      Char.ofNat (UInt8.ofNat character.toNat).toNat = character := by
    intro character member
    have small : (UInt8.ofNat character.toNat).toNat = character.toNat :=
      UInt8.toNat_ofNat_of_lt' (bytes character member)
    rw [small, Char.ofNat_toNat]
  have same : (bytesOfNodeID id).map (fun byte => Char.ofNat byte.toNat) = id.toList := by
    rw [bytesOfNodeID, List.map_map]
    exact (List.map_congr_left each).trans (List.map_id' _)
  rw [nodeIDOfBytes, same, String.ofList_toList]

theorem bytesOfNodeID_length (id : NodeID) : (bytesOfNodeID id).length = id.length := by
  rw [bytesOfNodeID, List.length_map, String.length_toList]

theorem readUint_bytes {width value : ℕ} (small : value < 256 ^ width) (rest : Bytes) (error : PayloadError) :
    readUint width (bigEndianBytes width value ++ rest) error = .ok (value, rest) := by
  rw [readUint, readBigEndian_of_lt small]

theorem readUint32_bytes {value : ℕ} (small : value < 256 ^ 4) (rest : Bytes) (error : ConfigEntryError) :
    readUint32 (bigEndianBytes 4 value ++ rest) error = .ok (value, rest) := by
  have read := readBigEndian_of_lt small rest
  unfold readBigEndian at read
  unfold readUint32
  split at read
  · cases read
  · rename_i long
    rw [if_neg long]
    exact congrArg Except.ok (Option.some.inj read)

/-! Configurations. -/

theorem decodeVoters_layout {voters : List NodeID} (bytes : ∀ voter ∈ voters, IsByteString voter)
    (short : ∀ voter ∈ voters, voter.length ≤ maxUint32) (position : ℕ) (seen : List NodeID) (rest : Bytes) :
    Yields (decodeVoters voters.length position seen (voters.flatMap voterLayout ++ rest))
      ((∀ voter ∈ voters, voter ≠ "" ∧ voter.length ≤ maxConfigurationNodeID ∧ voter ∉ seen) ∧ voters.Nodup)
      (seen ++ voters, rest) := by
  induction voters generalizing position seen with
  | nil =>
      rw [List.append_nil]
      exact (Yields.pure (seen, rest)).congr (by simp)
  | cons voter others ih =>
      have small : voter.length < 256 ^ 4 := by
        have bound := short voter List.mem_cons_self
        unfold maxUint32 at bound
        omega
      have shape : (voter :: others).flatMap voterLayout ++ rest =
          bigEndianBytes 4 voter.length ++ (bytesOfNodeID voter ++ (others.flatMap voterLayout ++ rest)) := by
        simp [voterLayout, bytesOfNodeID_length]
      have taken : ∀ tail : Bytes, (bytesOfNodeID voter ++ tail).take voter.length = bytesOfNodeID voter := by
        intro tail
        rw [← bytesOfNodeID_length, List.take_left]
      have dropped : ∀ tail : Bytes, (bytesOfNodeID voter ++ tail).drop voter.length = tail := by
        intro tail
        rw [← bytesOfNodeID_length, List.drop_left]
      have read := nodeIDOfBytes_bytesOfNodeID (bytes voter List.mem_cons_self)
      have following := ih (fun other member => bytes other (List.mem_cons_of_mem _ member))
        (fun other member => short other (List.mem_cons_of_mem _ member)) (position + 1) (seen ++ [voter])
      rw [List.append_assoc, List.singleton_append] at following
      rw [shape, List.length_cons, decodeVoters, readUint32_bytes small]
      simp only [bind, Except.bind, taken, dropped, read]
      refine (Yields.guard _ (Yields.guard _ (Yields.guard _ (Yields.guard _ following)))).congr ?_
      have inside : ¬ voter.length > (bytesOfNodeID voter ++ (others.flatMap voterLayout ++ rest)).length := by
        rw [List.length_append, bytesOfNodeID_length]
        omega
      simp only [inside, not_false_eq_true, true_and, List.mem_append, List.mem_singleton, not_or,
        List.forall_mem_cons, List.nodup_cons, gt_iff_lt, not_lt, ne_eq]
      rw [String.length_eq_zero_iff]
      constructor
      · rintro ⟨some, within, new, each, nodup⟩
        refine ⟨⟨⟨some, within, new⟩, fun other member => ?_⟩, fun member => (each voter member).2.2.2 rfl, nodup⟩
        exact ⟨(each other member).1, (each other member).2.1, (each other member).2.2.1⟩
      · rintro ⟨⟨⟨some, within, new⟩, each⟩, absent, nodup⟩
        refine ⟨some, within, new, fun other member => ?_, nodup⟩
        obtain ⟨someToo, withinToo, newToo⟩ := each other member
        exact ⟨someToo, withinToo, newToo, fun same => absent (same ▸ member)⟩

theorem encodeVoters_ok {voters : List NodeID} {position : ℕ} {bytes : Bytes}
    (encoded : encodeVoters position voters = .ok bytes) :
    bytes = voters.flatMap voterLayout ∧ ∀ voter ∈ voters, voter.length ≤ maxUint32 := by
  induction voters generalizing position bytes with
  | nil =>
      cases encoded
      exact ⟨rfl, fun _ member => nomatch member⟩
  | cons voter others ih =>
      unfold encodeVoters at encoded
      split at encoded
      · cases encoded
      · rename_i short
        obtain ⟨tail, following, rfl⟩ := map_eq_ok encoded
        obtain ⟨rfl, shortToo⟩ := ih following
        rw [bytesOfNodeID_length] at short
        exact ⟨rfl, List.forall_mem_cons.mpr ⟨not_lt.mp short, shortToo⟩⟩

theorem encodeConfiguration_ok {configuration : Configuration} {bytes : Bytes}
    (encoded : encodeConfiguration configuration = .ok bytes) :
    bytes = bigEndianBytes 4 configuration.voters.length ++ configuration.voters.flatMap voterLayout ∧
      configuration.voters.length ≤ maxUint32 ∧
      ∀ voter ∈ configuration.voters, voter.length ≤ maxUint32 := by
  unfold encodeConfiguration at encoded
  split at encoded
  · cases encoded
  · rename_i few
    obtain ⟨layout, voters, rfl⟩ := map_eq_ok encoded
    obtain ⟨rfl, short⟩ := encodeVoters_ok voters
    exact ⟨rfl, not_lt.mp few, short⟩

theorem decodeConfiguration_encoded {configuration : Configuration} {bytes : Bytes}
    (encoded : encodeConfiguration configuration = .ok bytes) (representable : configuration.Representable)
    (rest : Bytes) :
    Yields (decodeConfiguration (bytes ++ rest)) configuration.Decodable (configuration, rest) := by
  obtain ⟨rfl, few, short⟩ := encodeConfiguration_ok encoded
  have small : configuration.voters.length < 256 ^ 4 := by
    unfold maxUint32 at few
    omega
  have voters := decodeVoters_layout representable short 0 [] rest
  rw [List.nil_append] at voters
  rw [List.append_assoc, decodeConfiguration, readUint_bytes small]
  simp only [bind, Except.bind]
  refine (Yields.guard _ (voters.through asConfiguration rfl fun failure => ⟨_, rfl⟩)).congr ?_
  simp [Configuration.Decodable]

theorem decodeJoint_encoded {joint : Option JointConfiguration} {bytes : Bytes}
    (encoded : encodeJoint joint = .ok bytes)
    (representable : ∀ both, joint = some both → both.old.Representable ∧ both.new.Representable)
    (rest : Bytes) :
    Yields (decodeJoint (bytes ++ rest)) (∀ both, joint = some both → both.old.Decodable ∧ both.new.Decodable)
      (joint, rest) := by
  cases joint with
  | none =>
      cases encoded
      exact (Yields.pure (none, rest)).congr (by simp)
  | some both =>
      obtain ⟨representableOld, representableNew⟩ := representable both rfl
      simp only [encodeJoint] at encoded
      obtain ⟨oldBytes, old, encoded⟩ := bind_eq_ok encoded
      obtain ⟨newBytes, new, encoded⟩ := bind_eq_ok encoded
      cases encoded
      have first := decodeConfiguration_encoded old representableOld (newBytes ++ rest)
      have second := decodeConfiguration_encoded new representableNew rest
      rw [List.cons_append, List.append_assoc, decodeJoint]
      simp only [readFlag, bind, Except.bind]
      rw [if_neg (by decide), if_true]
      refine (Yields.bind first (Yields.bind second (Yields.pure (some both, rest)))).congr ?_
      simp

theorem decodeMembership_encoded {membership : Membership} {bytes : Bytes}
    (encoded : encodeMembership membership = .ok bytes) (representable : membership.Representable)
    (rest : Bytes) :
    Yields (decodeMembership (bytes ++ rest)) membership.Decodable (membership, rest) := by
  simp only [encodeMembership] at encoded
  obtain ⟨currentBytes, current, encoded⟩ := bind_eq_ok encoded
  obtain ⟨jointBytes, joint, encoded⟩ := bind_eq_ok encoded
  cases encoded
  have first := decodeConfiguration_encoded current representable.1 (jointBytes ++ rest)
  have second := decodeJoint_encoded joint representable.2 rest
  rw [List.append_assoc, decodeMembership, readUint_bytes (by decide)]
  simp only [List.cons_append, List.append_assoc, readFlag, bind, Except.bind, ne_eq, not_true_eq_false,
    if_false]
  refine (Yields.bind first (Yields.bind second (Yields.pure (membership, rest)))).congr ?_
  simp [Membership.Decodable]

theorem encodeMembership_ne_nil {membership : Membership} : encodeMembership membership ≠ .ok [] := by
  intro encoded
  simp only [encodeMembership] at encoded
  obtain ⟨currentBytes, current, encoded⟩ := bind_eq_ok encoded
  obtain ⟨jointBytes, joint, encoded⟩ := bind_eq_ok encoded
  cases List.append_eq_nil_iff.mp (Except.ok.inj encoded) with
  | intro magic following => cases following

theorem decodeStatePayload_encoded {state : PersistentState} {bytes : Bytes}
    (encoded : encodeStatePayload state = .ok bytes) (representable : state.Representable) :
    Yields (decodeStatePayload bytes) state.membership.Decodable state := by
  obtain ⟨smallTerm, byteVote, representable⟩ := representable
  simp only [encodeStatePayload] at encoded
  split at encoded
  · cases encoded
  · rename_i short
    obtain ⟨membershipBytes, membership, encoded⟩ := bind_eq_ok encoded
    cases encoded
    have first := decodeMembership_encoded membership representable []
    rw [List.append_nil] at first
    have smallVote : (bytesOfNodeID state.votedFor).length < 256 ^ 4 := by
      unfold maxUint32 at short
      omega
    have follows : ¬ membershipBytes.length = 0 := by
      intro empty
      rw [List.length_eq_zero_iff.mp empty] at membership
      exact encodeMembership_ne_nil membership
    rw [decodeStatePayload, readUint_bytes (smallTerm.trans_eq (by norm_num))]
    simp only [bind, Except.bind]
    rw [readUint_bytes smallVote]
    simp only [List.take_left, List.drop_left, nodeIDOfBytes_bytesOfNodeID byteVote, follows, if_false]
    refine (Yields.guard _ (Yields.bind first (Yields.guard _ (Yields.pure state)))).congr ?_
    simp

/-! Entries. -/

theorem encodeEntriesFrom_ok {entries : List LogEntry} {position : ℕ} {bytes : Bytes}
    (encoded : encodeEntriesFrom position entries = .ok bytes) :
    bytes = entries.flatMap entryLayout ∧ ∀ entry ∈ entries, entry.data.length ≤ maxUint32 := by
  induction entries generalizing position bytes with
  | nil =>
      cases encoded
      exact ⟨rfl, fun _ member => nomatch member⟩
  | cons entry others ih =>
      unfold encodeEntriesFrom at encoded
      split at encoded
      · cases encoded
      · rename_i short
        obtain ⟨tail, following, rfl⟩ := map_eq_ok encoded
        obtain ⟨rfl, shortToo⟩ := ih following
        exact ⟨rfl, List.forall_mem_cons.mpr ⟨not_lt.mp short, shortToo⟩⟩

theorem decodeEntry_layout {entry : LogEntry} (representable : entry.Representable)
    (short : entry.data.length ≤ maxUint32) (position : ℕ) (rest : Bytes) :
    decodeEntry position (entryLayout entry ++ rest) = .ok (entry, rest) := by
  obtain ⟨smallIndex, smallTerm⟩ := representable
  have small : entry.data.length < 256 ^ 4 := by
    unfold maxUint32 at short
    omega
  have inside : ¬ entry.data.length > (entry.data ++ rest).length := by
    rw [List.length_append]
    omega
  simp only [decodeEntry, entryLayout, List.append_assoc]
  rw [readUint_bytes (smallIndex.trans_eq (by norm_num))]
  simp only [bind, Except.bind]
  rw [readUint_bytes (smallTerm.trans_eq (by norm_num))]
  simp only
  rw [readUint_bytes small]
  simp only [inside, if_false, List.take_left, List.drop_left]

theorem decodeEntriesFrom_layout {entries : List LogEntry}
    (representable : ∀ entry ∈ entries, entry.Representable)
    (short : ∀ entry ∈ entries, entry.data.length ≤ maxUint32) (position : ℕ) :
    decodeEntriesFrom entries.length position (entries.flatMap entryLayout) = .ok (entries, []) := by
  induction entries generalizing position with
  | nil => rfl
  | cons entry others ih =>
      obtain ⟨first, representable⟩ := List.forall_mem_cons.mp representable
      obtain ⟨firstShort, short⟩ := List.forall_mem_cons.mp short
      rw [List.length_cons, List.flatMap_cons, decodeEntriesFrom, decodeEntry_layout first firstShort]
      simp only [bind, Except.bind]
      rw [ih representable short]

theorem minimumEntrySize_le (entry : LogEntry) : minimumEntrySize ≤ (entryLayout entry).length := by
  simp only [minimumEntrySize, entryLayout, List.length_append, bigEndianBytes_length]
  omega

theorem length_layout_le (entries : List LogEntry) :
    entries.length * minimumEntrySize ≤ (entries.flatMap entryLayout).length := by
  induction entries with
  | nil => exact Nat.le_of_eq (Nat.zero_mul _)
  | cons entry others ih =>
      rw [List.length_cons, Nat.succ_mul, List.flatMap_cons, List.length_append, Nat.add_comm]
      exact Nat.add_le_add (minimumEntrySize_le entry) ih

theorem decodeCountedEntries_encoded {entries : List LogEntry} {bytes : Bytes}
    (encoded : encodeEntriesPayload entries = .ok bytes)
    (representable : ∀ entry ∈ entries, entry.Representable) :
    decodeCountedEntries bytes = .ok entries := by
  unfold encodeEntriesPayload at encoded
  split at encoded
  · cases encoded
  · rename_i few
    obtain ⟨layout, each, rfl⟩ := map_eq_ok encoded
    obtain ⟨rfl, short⟩ := encodeEntriesFrom_ok each
    have small : entries.length < 256 ^ 4 := by
      unfold maxUint32 at few
      omega
    have inside : ¬ entries.length > (entries.flatMap entryLayout).length / minimumEntrySize := by
      rw [gt_iff_lt, not_lt, Nat.le_div_iff_mul_le (by decide)]
      exact length_layout_le entries
    rw [decodeCountedEntries, readUint_bytes small]
    simp only [bind, Except.bind, inside, if_false]
    rw [decodeEntriesFrom_layout representable short]
    rfl

/-! Records. -/

theorem encodeRecord_ok {recordType : UInt8} {payload : Bytes} {raw : RawRecord}
    (encoded : encodeRecord recordType payload = .ok raw) :
    raw.recordType = recordType ∧ raw.payload = payload := by
  unfold encodeRecord at encoded
  split at encoded
  · cases encoded
  · cases encoded
    exact ⟨rfl, rfl⟩

theorem decodeEntriesPayload_encoded {entries : List LogEntry} {bytes : Bytes}
    (encoded : encodeEntriesPayload entries = .ok bytes)
    (representable : ∀ entry ∈ entries, entry.Representable) :
    Yields (decodeEntriesPayload bytes) (validateEntries entries = .ok ()) entries := by
  rw [decodeEntriesPayload, decodeCountedEntries_encoded encoded representable]
  simp only [bind, Except.bind]
  cases checked : validateEntries entries with
  | error error => exact fun result => by simp
  | ok checked => exact (Yields.pure entries).congr (by simp)

theorem decodeReplaceSuffixPayload_encoded {start : ℕ} {entries : List LogEntry} {bytes : Bytes}
    (encoded : encodeReplaceSuffixPayload start entries = .ok bytes) (small : start < 2 ^ 64)
    (representable : ∀ entry ∈ entries, entry.Representable) :
    decodeReplaceSuffixPayload bytes = .ok (start, entries) := by
  obtain ⟨payload, each, rfl⟩ := map_eq_ok encoded
  rw [decodeReplaceSuffixPayload, readUint_bytes (small.trans_eq (by norm_num))]
  simp only [bind, Except.bind]
  rw [decodeCountedEntries_encoded each representable]

/-- Reading a written record back gives the record, unless the decoder refuses what it holds. -/
theorem Record.decode_encoded {json : SnapshotJSON} (trips : json.RoundTrips) {record : Record} {raw : RawRecord}
    (encoded : record.encode json = .ok raw) (representable : record.Representable) :
    Yields (raw.decode json) record.Decodable record := by
  cases record with
  | state saved =>
      obtain ⟨payload, written, encoded⟩ := bind_eq_ok encoded
      obtain ⟨type, same⟩ := encodeRecord_ok encoded
      rw [RawRecord.decode, type, same, if_pos rfl]
      exact (decodeStatePayload_encoded written representable).through (asRecord .state) rfl fun _ => ⟨_, rfl⟩
  | entries added =>
      obtain ⟨payload, written, encoded⟩ := bind_eq_ok encoded
      obtain ⟨type, same⟩ := encodeRecord_ok encoded
      rw [RawRecord.decode, type, same, if_neg (by decide), if_pos rfl]
      exact (decodeEntriesPayload_encoded written representable).through (asRecord .entries) rfl
        fun _ => ⟨_, rfl⟩
  | snapshot saved =>
      obtain ⟨payload, written, encoded⟩ := bind_eq_ok encoded
      obtain ⟨type, same⟩ := encodeRecord_ok encoded
      unfold encodeSnapshotPayload at written
      split at written
      · cases written
      · cases written
        rw [RawRecord.decode, type, same, if_neg (by decide), if_neg (by decide), if_pos rfl,
          decodeSnapshotPayload, trips saved representable]
        exact Yields.pure (Record.snapshot saved)
  | replaceSuffix start added =>
      obtain ⟨payload, written, encoded⟩ := bind_eq_ok encoded
      obtain ⟨type, same⟩ := encodeRecord_ok encoded
      rw [RawRecord.decode, type, same, if_neg (by decide), if_neg (by decide), if_neg (by decide), if_pos rfl,
        decodeReplaceSuffixPayload_encoded written representable.1 representable.2]
      exact Yields.pure (Record.replaceSuffix start added)

end Raftiq
