import Raftiq.Storage.RoundTrip
import Raftiq.Storage.Validate

namespace Raftiq

/-! What the decoders accept is what the encoders write. -/

theorem readUint_ok_iff {width value : ℕ} {reader rest : Bytes} {error : PayloadError} :
    readUint width reader error = .ok (value, rest) ↔
      value < 256 ^ width ∧ reader = bigEndianBytes width value ++ rest := by
  rw [← readBigEndian_some_iff, readUint]
  cases readBigEndian width reader with
  | none => simp
  | some read => simp

theorem decodeEntry_ok {position : ℕ} {reader rest : Bytes} {entry : LogEntry}
    (decoded : decodeEntry position reader = .ok (entry, rest)) :
    reader = entryLayout entry ++ rest ∧ entry.Representable ∧ entry.data.length ≤ maxUint32 := by
  obtain ⟨⟨index, afterIndex⟩, readIndex, decoded⟩ := bind_eq_ok decoded
  obtain ⟨⟨term, afterTerm⟩, readTerm, decoded⟩ := bind_eq_ok decoded
  obtain ⟨⟨dataLength, afterLength⟩, readLength, decoded⟩ := bind_eq_ok decoded
  dsimp only at decoded
  split at decoded
  · cases decoded
  · rename_i inside
    cases decoded
    obtain ⟨smallIndex, rfl⟩ := readUint_ok_iff.mp readIndex
    obtain ⟨smallTerm, rfl⟩ := readUint_ok_iff.mp readTerm
    obtain ⟨smallLength, rfl⟩ := readUint_ok_iff.mp readLength
    have length : (afterLength.take dataLength).length = dataLength := by
      rw [List.length_take]
      omega
    refine ⟨?_, ⟨smallIndex.trans_eq (by norm_num), smallTerm.trans_eq (by norm_num)⟩, ?_⟩
    · simp [entryLayout, length]
    · simp only [length, maxUint32]
      omega

theorem decodeEntriesFrom_ok {count position : ℕ} {reader rest : Bytes} {entries : List LogEntry}
    (decoded : decodeEntriesFrom count position reader = .ok (entries, rest)) :
    reader = entries.flatMap entryLayout ++ rest ∧ entries.length = count ∧
      (∀ entry ∈ entries, entry.Representable) ∧ ∀ entry ∈ entries, entry.data.length ≤ maxUint32 := by
  induction count generalizing position reader entries with
  | zero =>
      cases decoded
      simp
  | succ count ih =>
      obtain ⟨⟨entry, afterEntry⟩, first, decoded⟩ := bind_eq_ok decoded
      obtain ⟨⟨others, afterOthers⟩, following, decoded⟩ := bind_eq_ok decoded
      cases decoded
      obtain ⟨rfl, representable, short⟩ := decodeEntry_ok first
      obtain ⟨rfl, rfl, representableToo, shortToo⟩ := ih following
      refine ⟨?_, rfl, List.forall_mem_cons.mpr ⟨representable, representableToo⟩,
        List.forall_mem_cons.mpr ⟨short, shortToo⟩⟩
      rw [List.flatMap_cons, List.append_assoc]

theorem encodeEntriesFrom_layout {entries : List LogEntry}
    (short : ∀ entry ∈ entries, entry.data.length ≤ maxUint32) (position : ℕ) :
    encodeEntriesFrom position entries = .ok (entries.flatMap entryLayout) := by
  induction entries generalizing position with
  | nil => rfl
  | cons entry others ih =>
      obtain ⟨first, short⟩ := List.forall_mem_cons.mp short
      rw [encodeEntriesFrom, if_neg (not_lt.mpr first), ih short]
      rfl

theorem decodeCountedEntries_ok_iff {bytes : Bytes} {entries : List LogEntry} :
    decodeCountedEntries bytes = .ok entries ↔
      (∀ entry ∈ entries, entry.Representable) ∧ encodeEntriesPayload entries = .ok bytes := by
  constructor
  · intro decoded
    obtain ⟨⟨count, afterCount⟩, readCount, decoded⟩ := bind_eq_ok decoded
    dsimp only at decoded
    split at decoded
    · cases decoded
    · obtain ⟨⟨found, rest⟩, each, decoded⟩ := bind_eq_ok decoded
      dsimp only at decoded
      split at decoded
      · cases decoded
      · rename_i ends
        cases decoded
        obtain ⟨small, rfl⟩ := readUint_ok_iff.mp readCount
        obtain ⟨rfl, rfl, representable, short⟩ := decodeEntriesFrom_ok each
        have nothing : rest = [] := List.length_eq_zero_iff.mp (not_not.mp ends)
        have few : ¬ entries.length > maxUint32 := by
          unfold maxUint32
          omega
        refine ⟨representable, ?_⟩
        rw [encodeEntriesPayload, if_neg few, encodeEntriesFrom_layout short, nothing, List.append_nil]
        rfl
  · rintro ⟨representable, encoded⟩
    exact decodeCountedEntries_encoded encoded representable

theorem decodeEntriesPayload_ok_iff {payload : Bytes} {entries : List LogEntry} :
    decodeEntriesPayload payload = .ok entries ↔
      (∀ entry ∈ entries, entry.Representable) ∧ validateEntries entries = .ok () ∧
        encodeEntriesPayload entries = .ok payload := by
  constructor
  · intro decoded
    obtain ⟨found, counted, decoded⟩ := bind_eq_ok decoded
    obtain ⟨representable, encoded⟩ := decodeCountedEntries_ok_iff.mp counted
    split at decoded
    · cases decoded
    · rename_i validated
      cases decoded
      exact ⟨representable, validated, encoded⟩
  · rintro ⟨representable, validated, encoded⟩
    exact (decodeEntriesPayload_encoded encoded representable).ok validated

theorem decodeReplaceSuffixPayload_ok_iff {payload : Bytes} {start : ℕ} {entries : List LogEntry} :
    decodeReplaceSuffixPayload payload = .ok (start, entries) ↔
      (start < 2 ^ 64 ∧ ∀ entry ∈ entries, entry.Representable) ∧
        encodeReplaceSuffixPayload start entries = .ok payload := by
  constructor
  · intro decoded
    obtain ⟨⟨first, afterFirst⟩, readFirst, decoded⟩ := bind_eq_ok decoded
    obtain ⟨found, counted, decoded⟩ := bind_eq_ok decoded
    cases decoded
    obtain ⟨small, rfl⟩ := readUint_ok_iff.mp readFirst
    obtain ⟨representable, encoded⟩ := decodeCountedEntries_ok_iff.mp counted
    refine ⟨⟨small.trans_eq (by norm_num), representable⟩, ?_⟩
    rw [encodeReplaceSuffixPayload, encoded]
    rfl
  · rintro ⟨⟨small, representable⟩, encoded⟩
    exact decodeReplaceSuffixPayload_encoded encoded small representable

theorem isChain_of_numbered {entry : LogEntry} {rest : List LogEntry} :
    (entry :: rest).IsChain (fun before after => after.index = before.index + 1) ↔ Numbered entry.index rest := by
  induction rest generalizing entry with
  | nil => simp [Numbered]
  | cons next rest ih =>
      rw [List.isChain_cons_cons, ih, Numbered]
      exact and_congr_right fun same => by rw [same]

/-- Indexes are not 0 and follow one another. -/
theorem validateEntries_ok_iff {entries : List LogEntry} :
    validateEntries entries = .ok () ↔ (∀ entry ∈ entries, entry.index ≠ 0) ∧
      entries.IsChain fun before after => after.index = before.index + 1 := by
  cases entries with
  | nil => simp [validateEntries, validateEntriesFrom]
  | cons first rest =>
      rw [validateEntries_cons, isChain_of_numbered]
      constructor
      · rintro ⟨positive, numbered⟩
        refine ⟨List.forall_mem_cons.mpr ⟨by omega, fun entry member => ?_⟩, numbered⟩
        have above := (numbered.mem_index member).1
        omega
      · rintro ⟨nonzero, numbered⟩
        exact ⟨Nat.pos_of_ne_zero (nonzero first List.mem_cons_self), numbered⟩

/-- The payloads of the write-ahead log are read exactly as they are written. -/
theorem wal_codecs_exact (crc : Bytes → UInt32) :
    (∀ payload entries, decodeEntriesPayload payload = .ok entries ↔
      (∀ entry ∈ entries, entry.Representable) ∧
      ((∀ entry ∈ entries, entry.index ≠ 0) ∧
        entries.IsChain fun before after => after.index = before.index + 1) ∧
      encodeEntriesPayload entries = .ok payload) ∧
    (∀ payload start entries, decodeReplaceSuffixPayload payload = .ok (start, entries) ↔
      (start < 2 ^ 64 ∧ ∀ entry ∈ entries, entry.Representable) ∧
      encodeReplaceSuffixPayload start entries = .ok payload) ∧
    (∀ state payload, state.Representable → state.membership.Decodable →
      encodeStatePayload state = .ok payload → decodeStatePayload payload = .ok state) ∧
    (∀ recordType payload record rest, encodeRecord recordType payload = .ok record →
      record.recordType = recordType ∧ record.payload = payload ∧
        decodeRecord crc (record.bytes crc ++ rest) = .frame record rest) := by
  refine ⟨fun payload entries => ?_, fun payload start entries => decodeReplaceSuffixPayload_ok_iff,
    fun state payload representable decodable encoded => ?_, fun recordType payload record rest encoded => ?_⟩
  · rw [decodeEntriesPayload_ok_iff, validateEntries_ok_iff]
  · exact (decodeStatePayload_encoded encoded representable).ok decodable
  · obtain ⟨type, same⟩ := encodeRecord_ok encoded
    exact ⟨type, same, decodeRecord_bytes crc record rest⟩

/-- A node has voted for `B` in term 2, and appends two entries. -/
theorem state_and_entries_read_back : ∃ (state : PersistentState) (entries : List LogEntry)
    (saved appended replaced : Bytes) (record : RawRecord), state.votedFor = "B" ∧ entries.length = 2 ∧
    encodeStatePayload state = .ok saved ∧ decodeStatePayload saved = .ok state ∧
    encodeEntriesPayload entries = .ok appended ∧ decodeEntriesPayload appended = .ok entries ∧
    encodeReplaceSuffixPayload 4 entries = .ok replaced ∧ decodeReplaceSuffixPayload replaced = .ok (4, entries) ∧
    record.payload = appended ∧
    decodeRecord checksumIEEE (record.bytes checksumIEEE ++ [1]) = .frame record [1] := by
  let state : PersistentState := { currentTerm := 2, votedFor := "B", membership := ⟨⟨["A", "B"]⟩, none⟩ }
  let entries : List LogEntry := [⟨4, 1, [7]⟩, ⟨5, 2, [8, 9]⟩]
  let saved : Bytes := [0, 0, 0, 0, 0, 0, 0, 2, 0, 0, 0, 1, 66, 82, 65, 70, 84, 1, 0, 0, 0, 2, 0, 0, 0, 1, 65,
    0, 0, 0, 1, 66, 0]
  let appended : Bytes := [0, 0, 0, 2, 0, 0, 0, 0, 0, 0, 0, 4, 0, 0, 0, 0, 0, 0, 0, 1, 0, 0, 0, 1, 7,
    0, 0, 0, 0, 0, 0, 0, 5, 0, 0, 0, 0, 0, 0, 0, 2, 0, 0, 0, 2, 8, 9]
  let replaced : Bytes := [0, 0, 0, 0, 0, 0, 0, 4] ++ appended
  have voted : encodeStatePayload state = .ok saved := by decide +kernel
  have added : encodeEntriesPayload entries = .ok appended := by decide +kernel
  have suffix : encodeReplaceSuffixPayload 4 entries = .ok replaced := by decide +kernel
  obtain ⟨record, framed⟩ : ∃ record, encodeRecord recordEntries appended = .ok record := ⟨_, rfl⟩
  have representable : ∀ entry ∈ entries, entry.Representable := by simp [entries, LogEntry.Representable]
  have numbered : (∀ entry ∈ entries, entry.index ≠ 0) ∧
      entries.IsChain fun before after => after.index = before.index + 1 := by simp [entries]
  have stateBytes : state.Representable := by
    simp [state, PersistentState.Representable, Membership.Representable, Configuration.Representable, IsByteString]
  have decodable : state.membership.Decodable := by
    simp [state, Membership.Decodable, Configuration.Decodable, maxWALConfigurationVoters, maxConfigurationNodeID]
    decide
  obtain ⟨readsEntries, readsSuffix, readsState, readsRecord⟩ := wal_codecs_exact checksumIEEE
  obtain ⟨_, same, read⟩ := readsRecord recordEntries appended record [1] framed
  exact ⟨state, entries, saved, appended, replaced, record, rfl, rfl, voted, readsState state saved stateBytes
    decodable voted, added, (readsEntries appended entries).mpr ⟨representable, numbered, added⟩, suffix,
    (readsSuffix replaced 4 entries).mpr ⟨⟨by decide, representable⟩, suffix⟩, same, read⟩

end Raftiq
