import Raftiq.Encoding.Json
import Raftiq.Kv.Lease
import Raftiq.Kv.Snapshot

namespace Raftiq.Kv

variable {text : JsonText}

/-- `Restore` looks for a version in any object, whatever else it holds. -/
def readVersion (tree : Json) :
    Except (UnmarshalError text.Malformed) (Option (Except (UnmarshalError text.Malformed) ℕ)) :=
  match Json.readMap .ok tree with
  | .error error => .error error
  | .ok raw => .ok ((raw.lookup "version").map (Json.readUint 64))

/-- The decoders of `Restore` over the trees of JSON texts; versioned snapshots are left open. -/
def StoreJSON.ofText (text : JsonText) (marshal : SnapshotState → Bytes)
    (readSnapshot : Json → Except (UnmarshalError text.Malformed) SnapshotState) : StoreJSON where
  Error := UnmarshalError text.Malformed
  marshal := marshal
  version := text.unmarshal readVersion
  snapshot := text.unmarshal readSnapshot
  legacy := text.unmarshal (Json.readMap Json.readBytes)

/-- The version-0 encoding of `data`. -/
def legacySnapshot (text : JsonText) (data : GoMap Bytes) (order : List String) : Bytes :=
  text.marshal (Json.ofMap Json.ofBytes data order)

/-- The text is read back as it was written. -/
def LegacyReadable (text : JsonText) (data : GoMap Bytes) (order : List String) : Prop :=
  text.parse (legacySnapshot text data order) = .ok (Json.ofMap Json.ofBytes data order)

theorem readVersion_legacy {data : GoMap Bytes} {order : List String} (iterates : Iterates data order) :
    readVersion (Json.ofMap Json.ofBytes data order) =
      (.ok ((data.lookup "version").map fun _ => .error .wrongType) :
        Except (UnmarshalError text.Malformed) _) := by
  let asWritten : Json → Except (UnmarshalError text.Malformed) Json := .ok
  obtain ⟨raw, same, lookups⟩ := Json.readMap_ofMap asWritten Json.ofBytes Json.ofBytes (fun _ => rfl)
    fun key found => (iterates.mem key).mpr found
  unfold readVersion
  rw [same]
  dsimp only
  rw [lookups, Option.map_map]
  rfl

theorem readMap_legacy {data : GoMap Bytes} {order : List String} (iterates : Iterates data order) :
    Json.readMap Json.readBytes (Json.ofMap Json.ofBytes data order) =
      (.ok data : Except (UnmarshalError text.Malformed) _) := by
  obtain ⟨final, same, lookups⟩ := Json.readMap_ofMap _ _ id Json.readBytes_ofBytes
    fun key found => (iterates.mem key).mpr found
  have all : final = data := Finmap.ext_lookup fun key => by rw [lookups, Option.map_id, id]
  rw [same, all]

namespace Store

section Legacy

variable {marshal : SnapshotState → Bytes}
  {readSnapshot : Json → Except (UnmarshalError text.Malformed) SnapshotState} {data : GoMap Bytes}
  {order : List String}

/-- A key `version` is taken for the version of the snapshot, and its value is a string. -/
theorem restore_legacy (iterates : Iterates data order) (readable : LegacyReadable text data order)
    (store : Store) (lockOrder jobOrder : List String) :
    store.restore (.ofText text marshal readSnapshot) (legacySnapshot text data order) lockOrder jobOrder =
      match data.lookup "version" with
      | none => ({ data := data, locks := .new, fenced := ∅, jobs := ∅ }, .ok ())
      | some _ => (store, .error (.version .wrongType)) := by
  have version : (StoreJSON.ofText text marshal readSnapshot).version (legacySnapshot text data order) =
      .ok ((data.lookup "version").map fun _ => .error .wrongType) := by
    unfold StoreJSON.ofText JsonText.unmarshal
    dsimp only
    rw [readable]
    exact readVersion_legacy iterates
  have legacy : (StoreJSON.ofText text marshal readSnapshot).legacy (legacySnapshot text data order) =
      .ok data := by
    unfold StoreJSON.ofText JsonText.unmarshal
    dsimp only
    rw [readable]
    exact readMap_legacy iterates
  unfold restore restoreLegacy
  rw [version, legacy]
  cases data.lookup "version" with
  | none => rfl
  | some _ => rfl

/-- A legacy snapshot is restored on every store, unless one of its keys is `version`. -/
theorem legacy_restores_iff (iterates : Iterates data order) (readable : LegacyReadable text data order) :
    ((∀ (store : Store) (lockOrder jobOrder : List String),
        store.restore (.ofText text marshal readSnapshot) (legacySnapshot text data order) lockOrder jobOrder =
          ({ data := data, locks := .new, fenced := ∅, jobs := ∅ }, .ok ())) ↔
      data.lookup "version" = none) ∧
    ∀ (store : Store) (bytes : Bytes) (lockOrder jobOrder : List String) error,
      (store.restore (.ofText text marshal readSnapshot) bytes lockOrder jobOrder).2 = .error error →
      (store.restore (.ofText text marshal readSnapshot) bytes lockOrder jobOrder).1 = store := by
  refine ⟨⟨fun restores => ?_, fun free store lockOrder jobOrder => ?_⟩,
    fun store bytes lockOrder jobOrder error => restore_failed⟩
  · have restored := restores new [] []
    rw [restore_legacy iterates readable] at restored
    cases taken : data.lookup "version" with
    | none => rfl
    | some value =>
        rw [taken] at restored
        cases congrArg Prod.snd restored
  · rw [restore_legacy iterates readable, free]

end Legacy

/-- Strings without characters that have to be escaped. -/
def plainString (text : String) : Bytes :=
  0x22 :: text.toList.map (fun char => UInt8.ofNat char.toNat) ++ [0x22]

def plainMember : String × Json → Bytes
  | (key, .string text) => plainString key ++ 0x3a :: plainString text
  | (key, _) => plainString key ++ [0x3a]

/-- The members of an object, whose text has been split at the quotes. -/
def parsePlain : List Bytes → Option (List (String × Json))
  | [[0x7d]] => some []
  | _ :: key :: [0x3a] :: text :: rest =>
      (parsePlain rest).map ((plainOf key, .string (plainOf text)) :: ·)
  | _ => none
where plainOf (text : Bytes) : String := String.ofList (text.map fun byte => Char.ofNat byte.toNat)

/-- The texts of objects that hold plain strings. -/
def plainText : JsonText where
  Malformed := Unit
  marshal
    | .object members => 0x7b :: List.intercalate [0x2c] (members.map plainMember) ++ [0x7d]
    | _ => []
  parse data :=
    match parsePlain (data.splitOn 0x22) with
    | none => .error ()
    | some members => .ok (.object members)

/-- Two keys, and the text of their map. -/
theorem legacy_restores_plain_key : ∃ (text : JsonText) (data : GoMap Bytes) (json : StoreJSON),
    data.lookup "k" = some [1, 2] ∧
      new.restore json (legacySnapshot text data ["k", "l"]) [] [] =
        ({ data := data, locks := .new, fenced := ∅, jobs := ∅ }, .ok ()) := by
  let data : GoMap Bytes := ((∅ : GoMap Bytes).insert "l" [3]).insert "k" [1, 2]
  have iterates : Iterates data ["k", "l"] :=
    (Iterates.empty.insert List.not_mem_nil [3]).insert (by decide) [1, 2]
  have readable : LegacyReadable plainText data ["k", "l"] := rfl
  let marshal (state : SnapshotState) : Bytes := legacySnapshot plainText state.data ["k", "l"]
  let readSnapshot (tree : Json) : Except (UnmarshalError plainText.Malformed) SnapshotState :=
    (Json.readMap Json.readBytes tree).map fun data => { new.snapshotState with data := data }
  exact ⟨plainText, data, .ofText plainText marshal readSnapshot, rfl,
    (legacy_restores_iff iterates readable).1.mpr rfl new [] []⟩

/-- The key `version`: no text of this map can be restored. -/
theorem version_key_blocks_restore : ∃ (data : GoMap Bytes) (order : List String), Iterates data order ∧
    data.lookup "version" = some [1] ∧ (∃ text, LegacyReadable text data order) ∧
    ∀ (text : JsonText) (marshal : SnapshotState → Bytes)
      (readSnapshot : Json → Except (UnmarshalError text.Malformed) SnapshotState) (store : Store)
      (lockOrder jobOrder : List String), LegacyReadable text data order →
      store.restore (.ofText text marshal readSnapshot) (legacySnapshot text data order) lockOrder jobOrder =
        (store, .error (.version .wrongType)) := by
  let data : GoMap Bytes := (∅ : GoMap Bytes).insert "version" [1]
  have iterates : Iterates data ["version"] := Iterates.empty.insert List.not_mem_nil [1]
  refine ⟨data, ["version"], iterates, rfl, ⟨plainText, rfl⟩, ?_⟩
  intro text marshal readSnapshot store lockOrder jobOrder readable
  exact restore_legacy iterates readable store lockOrder jobOrder

end Store

end Raftiq.Kv
