import Raftiq.Kv.Snapshot

namespace Raftiq.Kv

/-- `encoding/json`, as the server and the applier use it.  A command is written as an object, which
begins with a brace. -/
structure Codec where
  encodeCommand : Command → Bytes
  decodeCommand : Bytes → Option Command
  store : StoreJSON
  object : ∀ command, (encodeCommand command).head? = some 0x7b

def Codec.entry (codec : Codec) (entry : LogEntry) : CommandEntry where
  index := entry.index
  command := codec.decodeCommand entry.data

/-- The command of a log entry has a result that a caller waits for. -/
def commandNeedsResult (codec : Codec) (entry : LogEntry) : Bool :=
  match codec.decodeCommand entry.data with
  | none => false
  | some command =>
      match command.type with
      | .fencedPut | .createJob | .claimJob | .jobReclaim | .jobStart | .jobSucceeded | .jobFailed => true
      | .put | .delete | .readBarrier | .lockAcquire | .lockExpire | .unknown _ => false

def StoreError.isExpected : StoreError → Bool
  | .staleFencingToken | .lockNotFound | .jobNotFound | .jobNotClaimable _ _ | .jobAlreadyAssigned _ _
  | .jobAlreadyOwned _ _ | .jobAlreadyExists _ | .invalidJobState | .jobOwnershipLost => true
  -- these wrap `ErrInvalidJob`
  | .invalidJob | .missingJobID | .missingJobState | .missingWorkerID | .invalidExpirationTime => true
  | .invalidKey | .invalidOwner | .invalidFencingToken => false

/-- Errors are wrapped, and `errors.Is` looks through that. -/
def isExpectedApplyError : ApplyError → Bool
  | .decode _ | .unknownType _ => false
  | .acquireLock _ error | .expireLock _ error | .fencedPut _ error | .createJob _ error | .claimJob _ error
  | .plain error => error.isExpected

structure Applier where
  store : Store
  lastApplied : ℕ
  /-- The index at which `Run` has given up, and why. -/
  applyErr : Option (ℕ × ApplyError)
  results : ℕ → Option ApplyResult

namespace Applier

def new (store : Store) : Applier where
  store := store
  lastApplied := 0
  applyErr := none
  results _ := none

/-- What `Run` does with one entry; it goes on unless the error is one that should not happen. -/
def applyEntry (codec : Codec) (applier : Applier) (entry : LogEntry) : Applier × Bool :=
  match applier.store.apply (codec.entry entry) with
  | (store, result) =>
      let applied : Applier :=
        { applier with
          store := store
          lastApplied := if entry.index > applier.lastApplied then entry.index else applier.lastApplied
          results :=
            if commandNeedsResult codec entry then Function.update applier.results entry.index (some result)
            else applier.results }
      match result.err with
      | none => (applied, true)
      | some error =>
          if isExpectedApplyError error then (applied, true)
          else ({ applied with applyErr := some (entry.index, error) }, false)

/-- One round of the loop of `WaitApplied`; nothing if it waits on. -/
def waitApplied (applier : Applier) (index : ℕ) : Option (Except (ℕ × ApplyError) Unit) :=
  match applier.applyErr with
  | some error => some (.error error)
  | none => if applier.lastApplied ≥ index then some (.ok ()) else none

/-- One round of the loop of `WaitResult`; a result is handed out once. -/
def waitResult (applier : Applier) (index : ℕ) : Applier × Option (Except (ℕ × ApplyError) ApplyResult) :=
  match applier.results index with
  | some result => ({ applier with results := Function.update applier.results index none }, some (.ok result))
  | none =>
      match applier.applyErr with
      | some error => (applier, some (.error error))
      | none => (applier, none)

/-- `RestoreSnapshot`; nothing if the store does not accept the snapshot. -/
def restoreSnapshot (codec : Codec) (applier : Applier) (snapshot : Snapshot) (lockOrder jobOrder : List String) :
    Option Applier :=
  match applier.store.restore codec.store snapshot.data lockOrder jobOrder with
  | (_, .error _) => none
  | (store, .ok ()) =>
      some { store := store, lastApplied := snapshot.lastIncludedIndex, applyErr := none, results := fun _ => none }

variable {codec : Codec} {applier after : Applier}

@[simp] theorem applyEntry_store (entry : LogEntry) :
    (applier.applyEntry codec entry).1.store = (applier.store.apply (codec.entry entry)).1 := by
  unfold applyEntry
  split
  · rename_i applied
    dsimp only
    split
    · simp [applied]
    · split
      · simp [applied]
      · simp [applied]

@[simp] theorem applyEntry_lastApplied (entry : LogEntry) :
    (applier.applyEntry codec entry).1.lastApplied = max applier.lastApplied entry.index := by
  have larger : (if entry.index > applier.lastApplied then entry.index else applier.lastApplied) =
      max applier.lastApplied entry.index := by
    split
    · omega
    · omega
  unfold applyEntry
  split
  · dsimp only
    split
    · exact larger
    · split
      · exact larger
      · exact larger

theorem applyEntry_results (entry : LogEntry) :
    (applier.applyEntry codec entry).1.results =
      if commandNeedsResult codec entry then
        Function.update applier.results entry.index (some (applier.store.apply (codec.entry entry)).2)
      else applier.results := by
  unfold applyEntry
  split
  · rename_i applied
    dsimp only
    split
    · simp [applied]
    · split
      · simp [applied]
      · simp [applied]

/-- `Run` goes on only if the entry has not made it fail. -/
theorem applyEntry_healthy {entry : LogEntry} (goesOn : (applier.applyEntry codec entry).2 = true) :
    (applier.applyEntry codec entry).1.applyErr = applier.applyErr := by
  unfold applyEntry at goesOn ⊢
  split at goesOn
  · dsimp only at goesOn ⊢
    split at goesOn
    · rfl
    · split at goesOn
      · rename_i expected
        simp [expected]
      · cases goesOn

/-- What the applier knows after a restore. -/
theorem restoreSnapshot_some {snapshot : Snapshot} {lockOrder jobOrder : List String}
    (restored : applier.restoreSnapshot codec snapshot lockOrder jobOrder = some after) :
    after.lastApplied = snapshot.lastIncludedIndex ∧ after.applyErr = none ∧ (∀ index, after.results index = none) ∧
      applier.store.restore codec.store snapshot.data lockOrder jobOrder = (after.store, .ok ()) := by
  unfold restoreSnapshot at restored
  split at restored
  · cases restored
  · rename_i store done
    cases restored
    exact ⟨rfl, rfl, fun _ => rfl, done⟩

end Applier

/-- A codec for runs that are written out: every command writes its value to the key `x`. -/
def Codec.register : Codec where
  encodeCommand command := 0x7b :: command.value
  decodeCommand data := some { type := .put, key := "x", value := data.tail }
  store := {
    Error := Unit
    marshal := fun state => (state.data.lookup "x").getD []
    version := fun _ => .ok (some (.ok snapshotVersion))
    snapshot := fun data => .ok (Store.new.put "x" data).snapshotState
    legacy := fun _ => .error () }
  object _ := rfl

/-- Commands that are known by their numbers. -/
def Codec.listed (commands : List Command) : Codec :=
  { Codec.register with
    encodeCommand := fun command => [0x7b, UInt8.ofNat (commands.idxOf command)]
    decodeCommand := fun data => commands[(data.tail.headD 0).toNat]?
    object := fun _ => rfl }

end Raftiq.Kv
