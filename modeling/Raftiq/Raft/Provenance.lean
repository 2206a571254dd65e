import Raftiq.Raft.Merge
import Raftiq.Raft.SavesStates

namespace Raftiq

/-! Where the entries and the snapshots of a cluster come from. -/

/-- The entries and the snapshots that may be held, sent and applied. -/
structure Origin where
  entry : LogEntry → Prop
  snapshot : Snapshot → Prop

variable {origin : Origin}

def Record.From (origin : Origin) : Record → Prop
  | .state _ => True
  | .entries added | .replaceSuffix _ added => ∀ entry ∈ added, origin.entry entry
  | .snapshot saved => origin.snapshot saved

structure Contents.From (origin : Origin) (contents : Contents) : Prop where
  entries : ∀ entry ∈ contents.entries, origin.entry entry
  snapshot : ∀ snapshot ∈ contents.snapshot, origin.snapshot snapshot

theorem Contents.From.effect {contents : Contents} {record : Record} (known : contents.From origin)
    (added : record.From origin) : (record.effect contents).From origin := by
  cases record with
  | state state => exact ⟨known.entries, known.snapshot⟩
  | entries entries =>
      refine ⟨fun entry member => ?_, known.snapshot⟩
      rcases List.mem_append.mp member with old | new
      · exact known.entries entry old
      · exact added entry new
  | snapshot snapshot =>
      refine ⟨known.entries, fun saved same => ?_⟩
      cases same
      exact added
  | replaceSuffix start entries =>
      refine ⟨fun entry member => ?_, known.snapshot⟩
      rcases List.mem_append.mp member with old | new
      · exact known.entries entry (List.takeWhile_subset _ old)
      · exact added entry new

def WALStorage.From (origin : Origin) (wal : WALStorage) : Prop :=
  ∀ record ∈ wal.file, record.From origin

theorem replay_from {contents : Contents} {file : List Record} (known : contents.From origin)
    (written : ∀ record ∈ file, record.From origin) : (replay contents file).From origin := by
  induction file generalizing contents with
  | nil => exact known
  | cons record rest ih =>
      exact ih (known.effect (written record List.mem_cons_self))
        fun other member => written other (List.mem_cons_of_mem _ member)

namespace WALStorage

variable {wal : WALStorage}

theorem From.contents (known : wal.From origin) : wal.contents.From origin := by
  rw [← wal.replays]
  exact replay_from ⟨fun _ none => (by cases none), fun _ none => (by cases none)⟩ known

theorem From.appendRecord (known : wal.From origin) {record : Record} (added : record.From origin) :
    (wal.appendRecord record).From origin := by
  intro other member
  rcases List.mem_append.mp member with old | new
  · exact known other old
  · rw [List.mem_singleton.mp new]
    exact added

theorem From.reopen (known : wal.From origin) {keep : ℕ} {reopened : WALStorage}
    (opened : wal.reopen keep = .ok reopened) : reopened.From origin := by
  unfold WALStorage.reopen openWAL at opened
  split at opened
  · cases opened
  · cases opened
    exact fun record member => known record (List.mem_of_mem_take member)

theorem From.compact (known : wal.From origin) {snapshot : Snapshot} (given : origin.snapshot snapshot)
    {compacted : WALStorage} (done : wal.compact snapshot = .ok compacted) : compacted.From origin := by
  have retained : ∀ entry ∈ wal.contents.entries.filter (snapshot.lastIncludedIndex < ·.index),
      origin.entry entry := fun entry member =>
    known.contents.entries entry (List.mem_filter.mp member).1
  unfold WALStorage.compact at done
  split at done
  · cases done
  · split at done
    · cases done
    · split at done
      · cases done
      · split at done
        · cases done
        · cases done
          intro record member
          rcases List.mem_append.mp member with front | back
          · rcases List.mem_cons.mp front with rfl | last
            · trivial
            · rw [List.mem_singleton.mp last]
              exact given
          · split at back
            · cases back
            · rw [List.mem_singleton.mp back]
              exact retained

end WALStorage

/-- The log that a write leaves behind, whether it has succeeded or not. -/
def Written.wal : Written → WALStorage
  | .ok wal | .failed _ wal | .crashed wal => wal

namespace WALStorage

variable {wal : WALStorage}

theorem From.writeSync (known : wal.From origin) (write : WALStorage → Except StorageError WALStorage)
    (fault : Fault) (writes : fault ≠ .writeFails → ∀ written, write wal = .ok written → written.From origin) :
    (wal.writeSync write fault).wal.From origin := by
  unfold WALStorage.writeSync
  split
  · exact known
  · rename_i written done
    cases fault with
    | none | syncFails | diskFull | crash => exact writes (by simp) written done
    | writeFails => exact known

theorem From.compactDurably (known : wal.From origin) {snapshot : Snapshot} (given : origin.snapshot snapshot)
    (fault : Fault) : (wal.compactDurably snapshot fault).wal.From origin := by
  unfold WALStorage.compactDurably
  split
  · exact known
  · rename_i compacted done
    cases fault with
    | none => exact known.compact given done
    | writeFails | syncFails | diskFull | crash => exact known

theorem From.appendEntries (known : wal.From origin) {entries : List LogEntry}
    (given : ∀ entry ∈ entries, origin.entry entry) (written : WALStorage)
    (done : WALStorage.appendEntries entries wal = .ok written) : written.From origin := by
  unfold WALStorage.appendEntries at done
  split at done
  · cases done
    exact known
  · split at done
    · cases done
    · split at done
      · cases done
      · cases done
        exact known.appendRecord given

theorem From.replaceSuffix (known : wal.From origin) {start : ℕ} {entries : List LogEntry}
    (given : ∀ entry ∈ entries, origin.entry entry) (written : WALStorage)
    (done : WALStorage.replaceSuffix start entries wal = .ok written) : written.From origin := by
  unfold WALStorage.replaceSuffix at done
  split at done
  · cases done
  · cases done
    exact known.appendRecord given

theorem From.saveSnapshot (known : wal.From origin) {snapshot : Snapshot} (given : origin.snapshot snapshot)
    (written : WALStorage) (done : WALStorage.saveSnapshot snapshot wal = .ok written) : written.From origin := by
  cases done
  exact known.appendRecord given

end WALStorage

structure RaftNode.From (origin : Origin) (node : RaftNode) : Prop where
  log : ∀ entry ∈ node.log.entries, origin.entry entry
  storage : node.storage.From origin

namespace RaftNode

/-- What a section leaves behind has this origin, and no entry is compacted away before it is applied. -/
structure Inherits (origin : Origin) (before after : RaftNode) : Prop extends after.From origin where
  boundary : after.log.lastIncludedIndex = before.log.lastIncludedIndex ∨
    after.log.lastIncludedIndex ≤ after.lastApplied

variable {node before after : RaftNode}

theorem From.keep (known : before.From origin) (log : after.log = before.log)
    (storage : after.storage.From origin) : before.Inherits origin after :=
  ⟨⟨log ▸ known.log, storage⟩, Or.inl (congrArg Log.lastIncludedIndex log)⟩

theorem persistState_from (state : PersistentState) (fault : Fault) (known : before.storage.From origin) :
    (before.persistState state fault).Ensures
      (fun after _ => after.log = before.log ∧ after.storage.From origin) (·.From origin) := by
  have written := known.writeSync (WALStorage.saveState state) fault
    fun _ written done => by cases done; exact known.appendRecord trivial
  unfold persistState
  split
  · rename_i saved
    rw [saved] at written
    exact ⟨rfl, written⟩
  · rename_i saved
    rw [saved] at written
    exact ⟨rfl, written⟩
  · rename_i saved
    rw [saved] at written
    exact written

/-- Persistent states bring neither entries nor snapshots. -/
theorem SavesStates.from (saves : before.SavesStates after) (known : before.storage.From origin) :
    after.log = before.log ∧ after.storage.From origin := by
  induction saves with
  | refl => exact ⟨rfl, known⟩
  | frame _ storage log _ ih => exact ⟨log.trans ih.1, storage ▸ ih.2⟩
  | @save middle after _ state _ fault durable saved ih =>
      have ensures := persistState_from state fault ih.2
      rw [saved] at ensures
      exact ⟨ensures.1.trans ih.1, ensures.2⟩

theorem SavesStatesLast.from {wal : WALStorage} (saves : before.SavesStatesLast wal)
    (known : before.storage.From origin) : wal.From origin := by
  obtain ⟨middle, state, earlier, _, rfl⟩ := saves
  exact (earlier.from known).2.appendRecord trivial

/-- The entry that a leader writes to its storage when a command is proposed. -/
def writes (node : RaftNode) (data : Bytes) (fault : Fault) : Option LogEntry :=
  let entry : LogEntry :=
    { index := node.log.lastIndex + 1, term := node.persistent.currentTerm, data := data }
  if node.role = .leader ∧ fault ≠ .writeFails ∧ (WALStorage.appendEntries [entry] node.storage).isOk then some entry
  else none

theorem writes_eq_some {data : Bytes} {fault : Fault} {entry : LogEntry} :
    node.writes data fault = some entry ↔
      node.role = .leader ∧ fault ≠ .writeFails ∧
        entry = ⟨node.log.lastIndex + 1, node.persistent.currentTerm, data⟩ ∧
        ∃ written, WALStorage.appendEntries [entry] node.storage = .ok written := by
  unfold writes
  dsimp only
  constructor
  · intro wrote
    split at wrote
    · rename_i accepted
      obtain ⟨leads, fault, done⟩ := accepted
      cases wrote
      cases appended : WALStorage.appendEntries
          [⟨node.log.lastIndex + 1, node.persistent.currentTerm, data⟩] node.storage with
      | error error =>
          rw [appended] at done
          cases done
      | ok written => exact ⟨leads, fault, rfl, written, rfl⟩
    · cases wrote
  · rintro ⟨leads, fault, rfl, written, done⟩
    rw [if_pos ⟨leads, fault, by rw [done]; rfl⟩]

theorem propose_from (known : node.From origin) {data : Bytes} {fault : Fault}
    (offered : ∀ entry ∈ node.writes data fault, origin.entry entry) :
    (node.propose data fault).Ensures (fun after _ => node.Inherits origin after) (·.From origin) := by
  unfold propose
  split
  · exact known.keep rfl known.storage
  · rename_i leads
    have written := known.storage.writeSync
      (WALStorage.appendEntries [⟨node.log.lastIndex + 1, node.persistent.currentTerm, data⟩])
      fault fun works wal done => known.storage.appendEntries
        (List.forall_mem_singleton.mpr
          (offered _ (writes_eq_some.mpr ⟨not_not.mp leads, works, rfl, wal, done⟩))) wal done
    dsimp only
    split
    · rename_i wrote
      rw [wrote] at written
      exact written
    · rename_i wrote
      rw [wrote] at written
      exact known.keep rfl written
    · rename_i wrote
      rw [wrote] at written
      exact known.keep rfl written
    · rename_i wrote
      rw [wrote] at written
      split
      · exact known.keep rfl written
      · rename_i log appended
        rcases node.log.append_cases ⟨node.log.lastIndex + 1, node.persistent.currentTerm, data⟩ with
          ⟨grown, done, _, entries, boundary, _⟩ | ⟨_, refused⟩
        · cases done.symm.trans appended
          refine ⟨⟨fun other member => ?_, written⟩, Or.inl boundary⟩
          change other ∈ log.entries at member
          rw [entries] at member
          rcases List.mem_append.mp member with old | new
          · exact known.log other old
          · rw [List.mem_singleton.mp new]
            obtain ⟨stored, accepted, _⟩ := writeSync_ok wrote
            refine offered _ (writes_eq_some.mpr ⟨not_not.mp leads, ?_, rfl, stored, accepted⟩)
            rintro rfl
            simp [WALStorage.writeSync, accepted] at wrote
        · cases refused.symm.trans appended

theorem appendEach_from {log : Log} {entries : List LogEntry} (known : ∀ entry ∈ log.entries, origin.entry entry)
    (given : ∀ entry ∈ entries, origin.entry entry) :
    (∀ entry ∈ (appendEach log entries).1.entries, origin.entry entry) ∧
      (appendEach log entries).1.lastIncludedIndex = log.lastIncludedIndex := by
  induction entries generalizing log with
  | nil => exact ⟨known, rfl⟩
  | cons entry rest ih =>
      unfold appendEach
      rcases log.append_cases entry with ⟨grown, appended, _, entries, boundary, _⟩ | ⟨_, refused⟩
      · rw [appended]
        obtain ⟨all, same⟩ := @ih grown (fun other member => by
            rw [entries] at member
            rcases List.mem_append.mp member with old | new
            · exact known other old
            · exact given other (List.mem_singleton.mp new ▸ List.mem_cons_self))
          fun other member => given other (List.mem_cons_of_mem _ member)
        exact ⟨all, same.trans boundary⟩
      · rw [refused]
        exact ⟨known, rfl⟩

end RaftNode

theorem Log.compact_boundary {log after : Log} {snapshot : Snapshot}
    (compacted : log.compact snapshot = .ok after) :
    after.lastIncludedIndex = snapshot.lastIncludedIndex := by
  unfold compact at compacted
  split at compacted
  · cases compacted
  · split at compacted
    · cases compacted
    · split at compacted
      · rename_i same
        split at compacted
        · cases compacted
        · cases compacted
          exact same.symm
      · split at compacted
        · cases compacted
        · split at compacted
          · cases compacted
          · cases compacted
            rfl

theorem Log.restoreSnapshot_boundaryIndex {log after : Log} {snapshot : Snapshot}
    (restored : log.restoreSnapshot snapshot = .ok after) :
    after.lastIncludedIndex = snapshot.lastIncludedIndex := by
  unfold restoreSnapshot at restored
  split at restored
  · cases restored
  · split at restored
    · rename_i same
      split at restored
      · cases restored
      · cases restored
        exact same.symm
    · split at restored
      · cases restored
        rfl
      · cases restored
        rfl

theorem Log.truncateFrom_from (log : Log) (index : ℕ) :
    (log.truncateFrom index).entries ⊆ log.entries ∧
      (log.truncateFrom index).lastIncludedIndex = log.lastIncludedIndex := by
  unfold truncateFrom
  split
  · exact ⟨List.nil_subset _, rfl⟩
  · split
    · exact ⟨fun _ => id, rfl⟩
    · exact ⟨List.takeWhile_subset _, rfl⟩

namespace RaftNode

variable {node before after : RaftNode}

theorem publishEntries_from {log : Log} {entries : List LogEntry} (known : node.storage.From origin)
    (held : ∀ entry ∈ log.entries, origin.entry entry) (given : ∀ entry ∈ entries, origin.entry entry)
    (boundary : log.lastIncludedIndex = before.log.lastIncludedIndex) :
    (node.publishEntries log entries).Ensures (fun after _ => before.Inherits origin after) (·.From origin) := by
  obtain ⟨all, same⟩ := appendEach_from held given
  unfold publishEntries
  split
  · rename_i appended
    rw [appended] at all same
    exact ⟨⟨all, known⟩, Or.inl (same.trans boundary)⟩
  · rename_i appended
    rw [appended] at all same
    exact ⟨⟨all, known⟩, Or.inl (same.trans boundary)⟩

theorem firstNew_subset {log : Log} {entries new : List LogEntry} (start : ℕ)
    (found : firstNew log entries = .missing new ∨ firstNew log entries = .conflict start new) :
    new ⊆ entries := by
  induction entries with
  | nil => simp [firstNew] at found
  | cons entry rest ih =>
      unfold firstNew at found
      split at found
      · rcases found with found | found
        · cases found
          exact List.Subset.refl _
        · cases found
      · split at found
        · rcases found with found | found
          · cases found
          · cases found
            exact List.Subset.refl _
        · exact List.subset_cons_of_subset _ (ih found)

theorem reconcileReplicatedEntriesLocked_from (known : node.From origin) {entries : List LogEntry}
    (given : ∀ entry ∈ entries, origin.entry entry) (fault : Fault) :
    (node.reconcileReplicatedEntriesLocked entries fault).Ensures
      (fun after _ => node.Inherits origin after) (·.From origin) := by
  unfold reconcileReplicatedEntriesLocked
  split
  · exact known.keep rfl known.storage
  · rename_i new found
    have fresh : ∀ entry ∈ new, origin.entry entry := fun entry member =>
      given entry (firstNew_subset 0 (Or.inl found) member)
    have written := known.storage.writeSync (WALStorage.appendEntries new) fault fun _ =>
      known.storage.appendEntries fresh
    split
    · rename_i wrote
      rw [wrote] at written
      exact written
    · rename_i wrote
      rw [wrote] at written
      exact known.keep rfl written
    · rename_i wrote
      rw [wrote] at written
      exact publishEntries_from written known.log fresh rfl
  · rename_i start new found
    have fresh : ∀ entry ∈ new, origin.entry entry := fun entry member =>
      given entry (firstNew_subset start (Or.inr found) member)
    have written := known.storage.writeSync (WALStorage.replaceSuffix start new) fault fun _ =>
      known.storage.replaceSuffix fresh
    obtain ⟨fewer, boundary⟩ := node.log.truncateFrom_from start
    split
    · rename_i wrote
      rw [wrote] at written
      exact written
    · rename_i wrote
      rw [wrote] at written
      exact known.keep rfl written
    · rename_i wrote
      rw [wrote] at written
      exact publishEntries_from written (fun entry member => known.log entry (fewer member)) fresh boundary

theorem acceptEntries_from (known : node.From origin) {args : AppendEntriesArgs}
    (given : ∀ entry ∈ args.entries, origin.entry entry) (fault : Fault) :
    (node.acceptEntries args fault).Ensures (fun after _ => node.Inherits origin after) (·.From origin) := by
  unfold acceptEntries
  split
  · exact known.keep rfl known.storage
  · have follower : From origin { node with role := .follower, leaderID := args.leaderID } :=
      ⟨known.log, known.storage⟩
    refine Outcome.Ensures.andThen (reconcileReplicatedEntriesLocked_from follower given fault)
      fun after reconciled inherits => ?_
    cases reconciled with
    | error error => exact ⟨⟨inherits.log, inherits.storage⟩, inherits.boundary⟩
    | ok _ => exact ⟨⟨inherits.log, inherits.storage⟩, inherits.boundary⟩

theorem SavesStates.inherits (saves : before.SavesStates after) (known : before.From origin) :
    before.Inherits origin after := by
  obtain ⟨log, storage⟩ := saves.from known.storage
  exact known.keep log storage

/-- What follows after a term has been saved. -/
theorem SavesStates.continued {α : Type} {middle : RaftNode} {outcome : Outcome α}
    (saves : before.SavesStates middle) (known : before.From origin)
    (goesOn : middle.From origin → outcome.Ensures (fun after _ => middle.Inherits origin after) (·.From origin)) :
    outcome.Ensures (fun after _ => before.Inherits origin after) (·.From origin) := by
  obtain ⟨log, storage⟩ := saves.from known.storage
  refine (goesOn ⟨log ▸ known.log, storage⟩).mono (fun after _ inherits => ?_) fun _ held => held
  exact ⟨inherits.toFrom, log ▸ inherits.boundary⟩

theorem appendEntries_from (known : node.From origin) {args : AppendEntriesArgs}
    (given : ∀ entry ∈ args.entries, origin.entry entry) (termFault logFault : Fault) :
    (node.appendEntries args termFault logFault).Ensures
      (fun after _ => node.Inherits origin after) (·.From origin) :=
  node.appendEntries_of_accept termFault logFault (fun _ saves _ => saves.inherits known)
    (fun _ saves => saves.from known.storage)
    fun _ saves _ => saves.continued known fun held => acceptEntries_from held given logFault

theorem createSnapshot_from (known : node.From origin) {index : ℕ} {data : Bytes}
    (given : ∀ entry, node.validateSnapshotRequestLocked index = .ok entry →
      origin.snapshot ⟨index, entry.term, data⟩) (saveFault compactFault : Fault) :
    (node.createSnapshot index data saveFault compactFault).Ensures
      (fun after _ => node.Inherits origin after) (·.From origin) := by
  unfold createSnapshot
  split
  · exact known.keep rfl known.storage
  · rename_i entry accepted
    have snapshot := given entry accepted
    have applied := (validateSnapshotRequestLocked_ok accepted).1
    have saved := known.storage.writeSync (WALStorage.saveSnapshot ⟨index, entry.term, data⟩) saveFault
      fun _ => known.storage.saveSnapshot snapshot
    unfold persistAndCompactSnapshotLocked
    split
    · rename_i wrote
      rw [wrote] at saved
      exact saved
    · rename_i wrote
      rw [wrote] at saved
      exact known.keep rfl saved
    · rename_i wal wrote
      rw [wrote] at saved
      have held : wal.From origin := saved
      have compacted := held.compactDurably snapshot compactFault
      split
      · rename_i wrote
        rw [wrote] at compacted
        exact compacted
      · rename_i wrote
        rw [wrote] at compacted
        exact known.keep rfl compacted
      · rename_i wrote
        rw [wrote] at compacted
        split
        · exact known.keep rfl compacted
        · rename_i log shorter
          refine ⟨⟨fun other member => known.log other (Log.compact_subset shorter member), compacted⟩, Or.inr ?_⟩
          rw [Log.compact_boundary shorter]
          exact applied

theorem persistInstall_from (known : node.From origin) {args : InstallSnapshotArgs}
    (given : origin.snapshot args.snapshot) (fault : Fault) :
    (node.persistInstall args fault).Ensures (fun after result => node.Inherits origin after ∧
      ∀ install, result = .pending install → install.args = args) (·.From origin) := by
  have saved := known.storage.writeSync (WALStorage.saveSnapshot args.snapshot) fault fun _ =>
    known.storage.saveSnapshot given
  unfold persistInstall
  dsimp only
  split
  · exact ⟨known.keep rfl known.storage, fun _ pending => (by cases pending)⟩
  · split
    · exact ⟨known.keep rfl known.storage, fun _ pending => (by cases pending)⟩
    · split
      · rename_i wrote
        rw [wrote] at saved
        exact saved
      · rename_i wrote
        rw [wrote] at saved
        exact ⟨known.keep rfl saved, fun _ pending => (by cases pending)⟩
      · rename_i wrote
        rw [wrote] at saved
        refine ⟨known.keep rfl saved, fun install pending => ?_⟩
        cases pending
        rfl

theorem installSnapshot_from (known : node.From origin) {args : InstallSnapshotArgs}
    (given : origin.snapshot args.snapshot) (termFault saveFault : Fault) :
    (node.installSnapshot args termFault saveFault).Ensures (fun after result => node.Inherits origin after ∧
      ∀ install, result = .pending install → install.args = args) (·.From origin) := by
  refine node.installSnapshot_of_persist termFault saveFault
    (fun after reply saves => ⟨saves.inherits known, fun _ pending => (by cases pending)⟩)
    (fun _ saves => saves.from known.storage) fun middle saves _ => ?_
  obtain ⟨log, storage⟩ := saves.from known.storage
  refine (persistInstall_from ⟨log ▸ known.log, storage⟩ given saveFault).mono (fun after _ held => ?_)
    fun _ held => held
  exact ⟨⟨held.1.toFrom, log ▸ held.1.boundary⟩, held.2⟩

theorem finishInstall_from (known : node.From origin) {install : PendingInstall}
    (given : origin.snapshot install.args.snapshot) (fault : Fault) :
    (node.finishInstall install fault).Ensures (fun after _ => node.Inherits origin after) (·.From origin) := by
  have compacted := known.storage.compactDurably given fault
  unfold finishInstall
  dsimp only
  split
  · rename_i wrote
    rw [wrote] at compacted
    exact compacted
  · rename_i wrote
    rw [wrote] at compacted
    exact known.keep rfl compacted
  · rename_i wrote
    rw [wrote] at compacted
    split
    · exact known.keep rfl compacted
    · rename_i log restored
      refine ⟨⟨fun other member => known.log other (Log.restoreSnapshot_subset restored member), compacted⟩,
        Or.inr ?_⟩
      rw [Log.restoreSnapshot_boundaryIndex restored]
      exact le_max_right _ _

end RaftNode

end Raftiq
