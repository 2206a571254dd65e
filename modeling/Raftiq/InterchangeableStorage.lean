import Raftiq.Storage.Memory
import Raftiq.WriteAheadLog

namespace Raftiq

/-! The write-ahead log and the storage in memory under the same calls, while no operation on the file fails. -/

namespace DiskWAL

variable (crc : Bytes → UInt32) (json : SnapshotJSON)

def performs (disk : DiskWAL) (calls : List WriteCall) : DiskWAL :=
  calls.foldl (fun disk call => (disk.perform crc json call .none).disk) disk

/-- No call fails because of the size of a record. -/
def fits (disk : DiskWAL) : List WriteCall → Bool
  | [] => true
  | call :: rest =>
      let returned := disk.perform crc json call .none
      match returned.error with
      | some (.encode _) => false
      | _ => fits returned.disk rest

theorem performs_append (disk : DiskWAL) (first second : List WriteCall) :
    disk.performs crc json (first ++ second) = (disk.performs crc json first).performs crc json second :=
  List.foldl_append

end DiskWAL

namespace MemoryStorage

def performs (memory : MemoryStorage) (calls : List WriteCall) : MemoryStorage :=
  calls.foldl (fun memory call => (memory.perform call).1) memory

/-- Whenever a compaction is at the index of the stored snapshot, it is given that snapshot. -/
def alwaysCompactsStored (memory : MemoryStorage) : List WriteCall → Bool
  | [] => true
  | call :: rest => memory.compactsStored call && alwaysCompactsStored (memory.perform call).1 rest

end MemoryStorage

variable {crc : Bytes → UInt32} {json : SnapshotJSON}

theorem DiskWAL.fits_cons {disk : DiskWAL} {call : WriteCall} {rest : List WriteCall} :
    disk.fits crc json (call :: rest) ↔
      (∀ error, (disk.perform crc json call .none).error ≠ some (.encode error)) ∧
        (disk.perform crc json call .none).disk.fits crc json rest := by
  rw [fits]
  split
  · rename_i error failed
    simp [failed]
  · rename_i other
    exact ⟨fun later => ⟨fun error failed => other error failed, later⟩, And.right⟩

/-- All calls give the same on both sides. -/
theorem Matches.performs {disk : DiskWAL} {memory : MemoryStorage} (matched : Matches disk memory)
    {first second : List WriteCall} (fits : disk.fits crc json (first ++ second))
    (stored : memory.alwaysCompactsStored (first ++ second)) :
    Matches (disk.performs crc json first) (memory.performs first) ∧
      (disk.performs crc json first).fits crc json second ∧
      (memory.performs first).alwaysCompactsStored second := by
  induction first generalizing disk memory with
  | nil => exact ⟨matched, fits, stored⟩
  | cons call rest ih =>
      obtain ⟨fitsNow, fitsLater⟩ := DiskWAL.fits_cons.mp fits
      obtain ⟨storedNow, storedLater⟩ := Bool.and_eq_true_iff.mp stored
      exact ih (matched.perform fitsNow storedNow).2 fitsLater storedLater

theorem openWAL_nil : DiskWAL.openWAL crc json [] =
    .ok { contents := Contents.empty, bytes := [], offset := some 0 } := rfl

/-- If every compaction at the index of the stored snapshot passes that snapshot, the two storages accept and
refuse the same calls for the same reasons, and load the same after each of them. -/
theorem storages_interchangeable {disk : DiskWAL} (opened : DiskWAL.openWAL crc json [] = .ok disk)
    {calls : List WriteCall} (fits : disk.fits crc json calls)
    (stored : MemoryStorage.new.alwaysCompactsStored calls) :
    ∀ earlier call later, calls = earlier ++ call :: later →
      ((disk.performs crc json earlier).perform crc json call .none).error =
        ((MemoryStorage.new.performs earlier).perform call).2.map .storage ∧
      (disk.performs crc json (earlier ++ [call])).loadState =
        .ok (MemoryStorage.new.performs (earlier ++ [call])).loadState ∧
      (disk.performs crc json (earlier ++ [call])).loadEntries =
        .ok (MemoryStorage.new.performs (earlier ++ [call])).loadEntries ∧
      (disk.performs crc json (earlier ++ [call])).loadSnapshot =
        .ok (MemoryStorage.new.performs (earlier ++ [call])).loadSnapshot := by
  have first : Matches disk .new := by
    rw [openWAL_nil] at opened
    cases opened
    exact ⟨Option.some_ne_none 0, rfl⟩
  rintro earlier call later rfl
  obtain ⟨before, fitsLater, storedLater⟩ := first.performs fits stored
  have step := before.perform (DiskWAL.fits_cons.mp fitsLater).1 (Bool.and_eq_true_iff.mp storedLater).1
  have after : Matches (disk.performs crc json (earlier ++ [call]))
      (MemoryStorage.new.performs (earlier ++ [call])) := by
    rw [DiskWAL.performs_append, MemoryStorage.performs, List.foldl_append]
    exact step.2
  exact ⟨step.1, after.loads⟩

/-- Entries are appended and replaced, a snapshot is saved, the log is compacted, and an append that leaves a
gap is refused. -/
theorem compacted_storages_agree : ∃ calls : List WriteCall,
    MemoryStorage.new.performs calls ≠ MemoryStorage.new ∧
      ∀ disk, DiskWAL.openWAL checksumIEEE fixedWidth [] = .ok disk →
        (disk.performs checksumIEEE fixedWidth (calls ++ [.appendEntries [⟨7, 1, []⟩]])).loadEntries =
          .ok (MemoryStorage.new.performs (calls ++ [.appendEntries [⟨7, 1, []⟩]])).loadEntries := by
  let calls : List WriteCall := [.appendEntries [⟨1, 1, []⟩, ⟨2, 1, []⟩, ⟨3, 1, []⟩], .replaceSuffix 3 [⟨3, 2, []⟩],
    .saveSnapshot ⟨2, 1, [5]⟩, .compact ⟨2, 1, [5]⟩]
  refine ⟨calls, by decide +kernel, fun disk opened => ?_⟩
  have fits : disk.fits checksumIEEE fixedWidth (calls ++ [.appendEntries [⟨7, 1, []⟩]]) := by
    rw [openWAL_nil] at opened
    cases opened
    decide +kernel
  have agree := storages_interchangeable opened fits (by decide +kernel) calls (.appendEntries [⟨7, 1, []⟩]) [] rfl
  exact agree.2.2.1

/-- A compaction with another term is refused by the write-ahead log only, and one with other data changes
what it loads as the snapshot. -/
theorem compaction_tells_storages_apart : ∃ disk, DiskWAL.openWAL checksumIEEE fixedWidth [] = .ok disk ∧
    (let saved := disk.performs checksumIEEE fixedWidth [.saveSnapshot ⟨1, 1, []⟩]
     let memory := MemoryStorage.new.performs [.saveSnapshot ⟨1, 1, []⟩]
     ((saved.perform checksumIEEE fixedWidth (.compact ⟨1, 2, []⟩) .none).error =
        some (.storage (.snapshotTermMismatch 1 2)) ∧ (memory.perform (.compact ⟨1, 2, []⟩)).2 = none) ∧
      (saved.perform checksumIEEE fixedWidth (.compact ⟨1, 1, [9]⟩) .none).disk.loadSnapshot = .ok ⟨1, 1, [9]⟩ ∧
        (memory.perform (.compact ⟨1, 1, [9]⟩)).1.loadSnapshot = ⟨1, 1, []⟩) :=
  ⟨_, openWAL_nil, by decide +kernel⟩

end Raftiq
