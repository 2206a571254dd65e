import Raftiq.Raft.LogView
import Raftiq.Run

namespace Raftiq

/-! The log as it lies in memory: a slice and a boundary, with no invariant of their own, whose
indexes and terms have 64 bits.  It refines `Log` as long as no index wraps around. -/

structure MachineEntry where
  index : UInt64
  term : UInt64
  data : Bytes
deriving DecidableEq, Repr

/-- What the log reads of a snapshot. -/
structure MachineSnapshot where
  lastIncludedIndex : UInt64
  lastIncludedTerm : UInt64
deriving DecidableEq, Repr

structure MachineLog where
  entries : List MachineEntry
  lastIncludedIndex : UInt64
  lastIncludedTerm : UInt64
deriving DecidableEq, Repr

inductive LogCall where
  | append (entry : MachineEntry)
  | truncateFrom (index : UInt64)
  | compact (snapshot : MachineSnapshot)
  | restoreSnapshot (snapshot : MachineSnapshot)
deriving DecidableEq, Repr

namespace MachineLog

def new : MachineLog where
  entries := []
  lastIncludedIndex := 0
  lastIncludedTerm := 0

def lastIndex (log : MachineLog) : UInt64 :=
  match log.entries.getLast? with
  | none => log.lastIncludedIndex
  | some entry => entry.index

def lastTerm (log : MachineLog) : UInt64 :=
  match log.entries.getLast? with
  | none => log.lastIncludedTerm
  | some entry => entry.term

def get (log : MachineLog) (index : UInt64) : Option MachineEntry :=
  if index = log.lastIncludedIndex ∧ index ≠ 0 then
    some { index := index, term := log.lastIncludedTerm, data := [] }
  else log.entries.find? (·.index = index)

def append (log : MachineLog) (entry : MachineEntry) : MachineLog × Except LogError Unit :=
  let expectedIndex := log.lastIndex + 1
  if entry.index ≠ expectedIndex then
    (log, .error (.invalidIndex entry.index.toNat expectedIndex.toNat))
  else ({ log with entries := log.entries ++ [entry] }, .ok ())

def truncateFrom (log : MachineLog) (index : UInt64) : MachineLog :=
  if index = 0 then { log with entries := [] }
  else if index ≤ log.lastIncludedIndex then log
  else { log with entries := log.entries.takeWhile (·.index < index) }

def compact (log : MachineLog) (snapshot : MachineSnapshot) : MachineLog × Except LogError Unit :=
  if snapshot.lastIncludedIndex < log.lastIncludedIndex then
    (log, .error (.compactBackwards log.lastIncludedIndex.toNat snapshot.lastIncludedIndex.toNat))
  else if snapshot.lastIncludedIndex > log.lastIndex then
    (log, .error (.compactBeyondLast snapshot.lastIncludedIndex.toNat log.lastIndex.toNat))
  else if snapshot.lastIncludedIndex = log.lastIncludedIndex then
    if snapshot.lastIncludedTerm ≠ log.lastIncludedTerm then
      (log, .error (.snapshotTermMismatch snapshot.lastIncludedIndex.toNat log.lastIncludedTerm.toNat
        snapshot.lastIncludedTerm.toNat))
    else (log, .ok ())
  else
    match log.get snapshot.lastIncludedIndex with
    | none => (log, .error (.boundaryNotFound snapshot.lastIncludedIndex.toNat))
    | some entry =>
        if entry.term ≠ snapshot.lastIncludedTerm then
          (log, .error (.snapshotTermMismatch snapshot.lastIncludedIndex.toNat entry.term.toNat
            snapshot.lastIncludedTerm.toNat))
        else
          ({ entries := log.entries.filter (snapshot.lastIncludedIndex < ·.index)
             lastIncludedIndex := snapshot.lastIncludedIndex
             lastIncludedTerm := snapshot.lastIncludedTerm }, .ok ())

/-- The log holds the boundary of the snapshot with the snapshot's term. -/
def boundaryMatches (log : MachineLog) (snapshot : MachineSnapshot) : Bool :=
  (log.get snapshot.lastIncludedIndex).any (·.term = snapshot.lastIncludedTerm)

def restoreSnapshot (log : MachineLog) (snapshot : MachineSnapshot) : MachineLog × Except LogError Unit :=
  if snapshot.lastIncludedIndex < log.lastIncludedIndex then
    (log, .error (.restoreBackwards log.lastIncludedIndex.toNat snapshot.lastIncludedIndex.toNat))
  else if snapshot.lastIncludedIndex = log.lastIncludedIndex then
    if snapshot.lastIncludedTerm ≠ log.lastIncludedTerm then
      (log, .error (.snapshotTermMismatch snapshot.lastIncludedIndex.toNat log.lastIncludedTerm.toNat
        snapshot.lastIncludedTerm.toNat))
    else (log, .ok ())
  else
    ({ entries :=
         if log.boundaryMatches snapshot then log.entries.filter (snapshot.lastIncludedIndex < ·.index) else []
       lastIncludedIndex := snapshot.lastIncludedIndex
       lastIncludedTerm := snapshot.lastIncludedTerm }, .ok ())

def perform (log : MachineLog) : LogCall → MachineLog × Except LogError Unit
  | .append entry => log.append entry
  | .truncateFrom index => (log.truncateFrom index, .ok ())
  | .compact snapshot => log.compact snapshot
  | .restoreSnapshot snapshot => log.restoreSnapshot snapshot

def step (log : MachineLog) (call : LogCall) : Option MachineLog :=
  some (log.perform call).1

/-- An entry with index 0 follows the one with the largest index. -/
def wrapsAround (log : MachineLog) : LogCall → Bool
  | .append entry => entry.index = 0 ∧ log.lastIndex + 1 = 0
  | _ => false

end MachineLog

def MachineEntry.toLogEntry (entry : MachineEntry) : LogEntry where
  index := entry.index.toNat
  term := entry.term.toNat
  data := entry.data

def MachineSnapshot.toSnapshot (snapshot : MachineSnapshot) : Snapshot where
  lastIncludedIndex := snapshot.lastIncludedIndex.toNat
  lastIncludedTerm := snapshot.lastIncludedTerm.toNat
  data := []

theorem MachineEntry.toLogEntry_injective : Function.Injective MachineEntry.toLogEntry := by
  intro entry other same
  simp only [toLogEntry, LogEntry.mk.injEq, UInt64.toNat_inj] at same
  cases entry
  cases other
  simpa using same

namespace Log

/-- What a call does to a log whose indexes do not end. -/
def perform (log : Log) : LogCall → Except LogError Log
  | .append entry => log.append entry.toLogEntry
  | .truncateFrom index => .ok (log.truncateFrom index.toNat)
  | .compact snapshot => log.compact snapshot.toSnapshot
  | .restoreSnapshot snapshot => log.restoreSnapshot snapshot.toSnapshot

theorem numbered_range (count term : ℕ) :
    Numbered 0 ((List.range count).map fun position => ⟨position + 1, term, []⟩) := by
  induction count with
  | zero => trivial
  | succ count ih =>
      rw [List.range_succ, List.map_append]
      refine Numbered.append_iff.mpr ⟨ih, ?_⟩
      simp [Numbered]

/-- Every compacted log shows some full one. -/
theorem exists_views (log : Log) : ∃ full, log.Views full := by
  let hidden : List LogEntry :=
    (List.range log.lastIncludedIndex).map fun position => ⟨position + 1, log.lastIncludedTerm, []⟩
  have length : hidden.length = log.lastIncludedIndex := by simp [hidden]
  refine ⟨hidden ++ log.entries, ?_, ?_, ?_, ?_⟩
  · refine Numbered.append_iff.mpr ⟨numbered_range _ _, ?_⟩
    rw [Nat.zero_add, length]
    exact log.numbered
  · rw [List.length_append]
    omega
  · rw [← length, List.drop_left]
  · rw [termAt, ← length, List.take_left]
    cases index : log.lastIncludedIndex with
    | zero => simp [hidden, index, log.boundary index]
    | succ before => simp [hidden, index, List.range_succ]

theorem get_isSome_iff (log : Log) (index : ℕ) :
    (log.get index).isSome ↔ 0 < index ∧ log.lastIncludedIndex ≤ index ∧ index ≤ log.lastIndex := by
  obtain ⟨full, views⟩ := log.exists_views
  rw [views.lastIndex]
  cases found : log.get index with
  | none =>
      have missing := views.get_eq_none found
      simp only [Option.isSome_none, Bool.false_eq_true, false_iff]
      omega
  | some entry =>
      obtain ⟨positive, above, within, _⟩ := views.get_some found
      simp [positive, above, within]

/-- A reader of the log cannot tell that it has been compacted. -/
theorem compact_invisible {log after : Log} {snapshot : Snapshot}
    (compacted : log.compact snapshot = .ok after) :
    after.lastIndex = log.lastIndex ∧ after.lastTerm = log.lastTerm ∧
      (after.get snapshot.lastIncludedIndex).map (·.term) = (log.get snapshot.lastIncludedIndex).map (·.term) ∧
      ∀ index, snapshot.lastIncludedIndex < index → after.get index = log.get index := by
  obtain ⟨full, views⟩ := log.exists_views
  obtain ⟨viewsAfter, boundary, forward⟩ := views.compact compacted
  have last : after.lastIndex = log.lastIndex := by rw [viewsAfter.lastIndex, views.lastIndex]
  refine ⟨last, by rw [viewsAfter.lastTerm, views.lastTerm], ?_, fun index above => ?_⟩
  · have both : (after.get snapshot.lastIncludedIndex).isSome ↔ (log.get snapshot.lastIncludedIndex).isSome := by
      rw [get_isSome_iff, get_isSome_iff, last, boundary]
      omega
    cases found : log.get snapshot.lastIncludedIndex with
    | none => simpa [found] using both
    | some entry =>
        obtain ⟨kept, foundAfter⟩ := Option.isSome_iff_exists.mp (both.mpr (by rw [found]; rfl))
        obtain ⟨_, _, _, _, term⟩ := views.get_some found
        obtain ⟨_, _, _, _, termAfter⟩ := viewsAfter.get_some foundAfter
        rw [foundAfter, Option.map_some, Option.map_some, term, termAfter]
  · rw [viewsAfter.get_above (by omega), views.get_above (by omega)]

end Log

theorem Numbered.map_index {base : ℕ} {entries : List LogEntry} (numbered : Numbered base entries) :
    entries.map (·.index) = List.range' (base + 1) entries.length := by
  induction entries generalizing base with
  | nil => rfl
  | cons head rest ih => rw [List.map_cons, numbered.1, ih numbered.2, List.length_cons, List.range'_succ]

namespace MachineLog

/-- The log holds in 64 bits what `abstract` holds. -/
structure Represents (log : MachineLog) (abstract : Log) : Prop where
  entries : log.entries.map MachineEntry.toLogEntry = abstract.entries
  index : log.lastIncludedIndex.toNat = abstract.lastIncludedIndex
  term : log.lastIncludedTerm.toNat = abstract.lastIncludedTerm

/-- A call ends as it does on the log that `log` stands for; one that fails changes nothing. -/
def Refines (log : MachineLog) (result : MachineLog × Except LogError Unit) : Except LogError Log → Prop
  | .ok next => ∃ after, result = (after, .ok ()) ∧ after.Represents next
  | .error _ => ∃ error, result = (log, .error error)

variable {log after : MachineLog} {abstract : Log} {index : UInt64} {entry : MachineEntry}
  {snapshot : MachineSnapshot} {call : LogCall}

theorem new_represents : new.Represents Log.new where
  entries := rfl
  index := rfl
  term := rfl

namespace Represents

theorem lastIndex (represents : log.Represents abstract) : log.lastIndex.toNat = abstract.lastIndex := by
  unfold MachineLog.lastIndex Log.lastIndex
  rw [← represents.entries, List.getLast?_map]
  cases log.entries.getLast? with
  | none => exact represents.index
  | some entry => rfl

theorem lastTerm (represents : log.Represents abstract) : log.lastTerm.toNat = abstract.lastTerm := by
  unfold MachineLog.lastTerm Log.lastTerm
  rw [← represents.entries, List.getLast?_map]
  cases log.entries.getLast? with
  | none => exact represents.term
  | some entry => rfl

theorem get (represents : log.Represents abstract) (index : UInt64) :
    (log.get index).map MachineEntry.toLogEntry = abstract.get index.toNat := by
  have zero : index.toNat = 0 ↔ index = 0 := UInt64.toNat_inj (b := 0)
  unfold MachineLog.get Log.get
  simp only [← represents.entries, ← represents.index, ← represents.term, UInt64.toNat_inj, ne_eq, zero]
  split
  · rfl
  · rw [List.find?_map]
    congr 2
    funext entry
    simp [MachineEntry.toLogEntry, UInt64.toNat_inj]

theorem filter (represents : log.Represents abstract) (index : UInt64) :
    (log.entries.filter (index < ·.index)).map MachineEntry.toLogEntry =
      abstract.entries.filter (index.toNat < ·.index) := by
  rw [← represents.entries, List.filter_map]
  rfl

theorem takeWhile (represents : log.Represents abstract) (index : UInt64) :
    (log.entries.takeWhile (·.index < index)).map MachineEntry.toLogEntry =
      abstract.entries.takeWhile (·.index < index.toNat) := by
  rw [← represents.entries, List.takeWhile_map]
  rfl

theorem append (represents : log.Represents abstract) (fits : ¬ log.wrapsAround (.append entry)) :
    log.Refines (log.append entry) (abstract.append entry.toLogEntry) := by
  have accepted : entry.index = log.lastIndex + 1 ↔ entry.toLogEntry.index = abstract.lastIndex + 1 := by
    have small := log.lastIndex.toNat_lt
    have smallToo := entry.index.toNat_lt
    rw [← represents.lastIndex, ← UInt64.toNat_inj, UInt64.toNat_add]
    simp only [wrapsAround, ← UInt64.toNat_inj, UInt64.toNat_add] at fits
    simp at fits ⊢
    change entry.index.toNat = _ ↔ entry.index.toNat = _
    omega
  unfold MachineLog.append
  rcases abstract.append_cases entry.toLogEntry with
    ⟨next, appended, follows, entries, index, term, _⟩ | ⟨other, refused⟩
  · rw [appended, if_neg (not_not.mpr (accepted.mpr follows))]
    refine ⟨_, rfl, ?_, represents.index.trans index.symm, represents.term.trans term.symm⟩
    rw [entries, List.map_append, represents.entries]
    rfl
  · rw [refused, if_pos (mt accepted.mp other)]
    exact ⟨_, rfl⟩

theorem truncateFrom (represents : log.Represents abstract) (index : UInt64) :
    (log.truncateFrom index).Represents (abstract.truncateFrom index.toNat) := by
  have zero : index = 0 ↔ index.toNat = 0 := UInt64.toNat_inj.symm
  unfold MachineLog.truncateFrom Log.truncateFrom
  simp only [zero, UInt64.le_iff_toNat_le, represents.index]
  split
  · exact ⟨rfl, represents.index, represents.term⟩
  · split
    · exact represents
    · exact ⟨represents.takeWhile index, represents.index, represents.term⟩

theorem backwards_iff (represents : log.Represents abstract) :
    snapshot.lastIncludedIndex < log.lastIncludedIndex ↔
      snapshot.toSnapshot.lastIncludedIndex < abstract.lastIncludedIndex := by
  rw [← represents.index]
  exact UInt64.lt_iff_toNat_lt

theorem beyond_iff (represents : log.Represents abstract) :
    snapshot.lastIncludedIndex > log.lastIndex ↔ snapshot.toSnapshot.lastIncludedIndex > abstract.lastIndex := by
  rw [← represents.lastIndex]
  exact UInt64.lt_iff_toNat_lt

theorem boundary_iff (represents : log.Represents abstract) :
    snapshot.lastIncludedIndex = log.lastIncludedIndex ↔
      snapshot.toSnapshot.lastIncludedIndex = abstract.lastIncludedIndex := by
  rw [← represents.index]
  exact UInt64.toNat_inj.symm

theorem term_iff (represents : log.Represents abstract) :
    snapshot.lastIncludedTerm ≠ log.lastIncludedTerm ↔
      snapshot.toSnapshot.lastIncludedTerm ≠ abstract.lastIncludedTerm := by
  rw [← represents.term]
  exact UInt64.toNat_inj.symm.not

theorem entry_term_iff :
    entry.term ≠ snapshot.lastIncludedTerm ↔
      entry.toLogEntry.term ≠ snapshot.toSnapshot.lastIncludedTerm :=
  UInt64.toNat_inj.symm.not

/-- A snapshot at the boundary has to have its term. -/
theorem boundary (represents : log.Represents abstract) (error : LogError) :
    log.Refines (if snapshot.lastIncludedTerm ≠ log.lastIncludedTerm then (log, .error error) else (log, .ok ()))
      (if snapshot.toSnapshot.lastIncludedTerm ≠ abstract.lastIncludedTerm then .error error
      else .ok abstract) := by
  by_cases mismatch : snapshot.lastIncludedTerm ≠ log.lastIncludedTerm
  · rw [if_pos mismatch, if_pos (represents.term_iff.mp mismatch)]
    exact ⟨error, rfl⟩
  · rw [if_neg mismatch, if_neg (mt represents.term_iff.mpr mismatch)]
    exact ⟨log, rfl, represents⟩

theorem compact (represents : log.Represents abstract) :
    log.Refines (log.compact snapshot) (abstract.compact snapshot.toSnapshot) := by
  unfold MachineLog.compact Log.compact
  by_cases backwards : snapshot.lastIncludedIndex < log.lastIncludedIndex
  · rw [if_pos backwards, dif_pos (represents.backwards_iff.mp backwards)]
    exact ⟨_, rfl⟩
  rw [if_neg backwards, dif_neg (mt represents.backwards_iff.mpr backwards)]
  by_cases beyond : snapshot.lastIncludedIndex > log.lastIndex
  · rw [if_pos beyond, dif_pos (represents.beyond_iff.mp beyond)]
    exact ⟨_, rfl⟩
  rw [if_neg beyond, dif_neg (mt represents.beyond_iff.mpr beyond)]
  by_cases same : snapshot.lastIncludedIndex = log.lastIncludedIndex
  · rw [if_pos same, dif_pos (represents.boundary_iff.mp same), represents.term]
    exact represents.boundary _
  · rw [if_neg same, dif_neg (mt represents.boundary_iff.mpr same)]
    have found := represents.get snapshot.lastIncludedIndex
    change _ = abstract.get snapshot.toSnapshot.lastIncludedIndex at found
    rw [← found]
    cases log.get snapshot.lastIncludedIndex with
    | none => exact ⟨_, rfl⟩
    | some entry =>
        dsimp only [Option.map_some]
        by_cases mismatch : entry.term ≠ snapshot.lastIncludedTerm
        · rw [if_pos mismatch, if_pos (entry_term_iff.mp mismatch)]
          exact ⟨_, rfl⟩
        · rw [if_neg mismatch, if_neg (mt entry_term_iff.mpr mismatch)]
          exact ⟨_, rfl, represents.filter _, rfl, rfl⟩

theorem boundaryMatches (represents : log.Represents abstract) :
    log.boundaryMatches snapshot = abstract.boundaryMatches snapshot.toSnapshot := by
  have found := represents.get snapshot.lastIncludedIndex
  unfold MachineLog.boundaryMatches Log.boundaryMatches
  change _ = (abstract.get snapshot.lastIncludedIndex.toNat).any _
  rw [← found]
  cases log.get snapshot.lastIncludedIndex with
  | none => rfl
  | some entry => simp [MachineEntry.toLogEntry, MachineSnapshot.toSnapshot, UInt64.toNat_inj]

theorem restoreSnapshot (represents : log.Represents abstract) :
    log.Refines (log.restoreSnapshot snapshot) (abstract.restoreSnapshot snapshot.toSnapshot) := by
  unfold MachineLog.restoreSnapshot Log.restoreSnapshot
  by_cases backwards : snapshot.lastIncludedIndex < log.lastIncludedIndex
  · rw [if_pos backwards, dif_pos (represents.backwards_iff.mp backwards)]
    exact ⟨_, rfl⟩
  rw [if_neg backwards, dif_neg (mt represents.backwards_iff.mpr backwards)]
  by_cases same : snapshot.lastIncludedIndex = log.lastIncludedIndex
  · rw [if_pos same, dif_pos (represents.boundary_iff.mp same), represents.term]
    exact represents.boundary _
  · rw [if_neg same, dif_neg (mt represents.boundary_iff.mpr same), represents.boundaryMatches]
    split
    · exact ⟨_, rfl, represents.filter _, rfl, rfl⟩
    · exact ⟨_, rfl, rfl, rfl, rfl⟩

/-- As long as no index wraps around, calls in 64 bits do what they do on the log itself. -/
theorem perform (represents : log.Represents abstract) (fits : ¬ log.wrapsAround call) :
    log.Refines (log.perform call) (abstract.perform call) := by
  cases call with
  | append entry => exact represents.append fits
  | truncateFrom index => exact ⟨_, rfl, represents.truncateFrom index⟩
  | compact snapshot => exact represents.compact
  | restoreSnapshot snapshot => exact represents.restoreSnapshot

theorem step (represents : log.Represents abstract) (fits : ¬ log.wrapsAround call)
    (stepped : log.step call = some after) : ∃ next, after.Represents next := by
  have refines := represents.perform fits
  cases Option.some.inj stepped
  cases performed : abstract.perform call with
  | ok next =>
      rw [performed] at refines
      obtain ⟨reached, result, kept⟩ := refines
      exact ⟨next, by rw [result]; exact kept⟩
  | error error =>
      rw [performed] at refines
      obtain ⟨_, result⟩ := refines
      exact ⟨abstract, by rw [result]; exact represents⟩

end Represents

/-- What the readers of a log rely on, whatever is called next. -/
structure Transparent (log : MachineLog) : Prop where
  indexes : log.entries.map (·.index.toNat) =
    List.range' (log.lastIncludedIndex.toNat + 1) (log.lastIndex.toNat - log.lastIncludedIndex.toNat)
  get : ∀ index, (log.get index).isSome ↔ 0 < index ∧ log.lastIncludedIndex ≤ index ∧ index ≤ log.lastIndex
  compact : ∀ snapshot after, log.compact snapshot = (after, .ok ()) →
    after.lastIndex = log.lastIndex ∧ after.lastTerm = log.lastTerm ∧
      (after.get snapshot.lastIncludedIndex).map (·.term) = (log.get snapshot.lastIncludedIndex).map (·.term) ∧
      ∀ index, snapshot.lastIncludedIndex < index → after.get index = log.get index
  restore : ∀ snapshot, log.lastIncludedIndex < snapshot.lastIncludedIndex → ∃ after,
    log.restoreSnapshot snapshot = (after, .ok ()) ∧
      after.lastIncludedIndex = snapshot.lastIncludedIndex ∧
      after.lastIncludedTerm = snapshot.lastIncludedTerm ∧
      (∀ entry, log.get snapshot.lastIncludedIndex = some entry → entry.term = snapshot.lastIncludedTerm →
        after.entries = log.entries.filter (snapshot.lastIncludedIndex < ·.index)) ∧
      ((∀ entry, log.get snapshot.lastIncludedIndex = some entry → entry.term ≠ snapshot.lastIncludedTerm) →
        after.entries = [])
  failed : ∀ call after error, log.perform call = (after, .error error) → after = log

theorem Represents.get_isSome_iff (represents : log.Represents abstract) (index : UInt64) :
    (log.get index).isSome ↔ 0 < index ∧ log.lastIncludedIndex ≤ index ∧ index ≤ log.lastIndex := by
  have found := represents.get index
  rw [← Option.isSome_map, found, abstract.get_isSome_iff, ← represents.index, ← represents.lastIndex,
    UInt64.lt_iff_toNat_lt, UInt64.le_iff_toNat_le, UInt64.le_iff_toNat_le]
  rfl

theorem Represents.compact_invisible (represents : log.Represents abstract)
    (compacted : log.compact snapshot = (after, .ok ())) :
    after.lastIndex = log.lastIndex ∧ after.lastTerm = log.lastTerm ∧
      (after.get snapshot.lastIncludedIndex).map (·.term) = (log.get snapshot.lastIncludedIndex).map (·.term) ∧
      ∀ index, snapshot.lastIncludedIndex < index → after.get index = log.get index := by
  have refines : log.Refines (log.compact snapshot) (abstract.compact snapshot.toSnapshot) := represents.compact
  rw [compacted] at refines
  cases performed : abstract.compact snapshot.toSnapshot with
  | error error =>
      rw [performed] at refines
      obtain ⟨_, failed⟩ := refines
      cases failed
  | ok next =>
      rw [performed] at refines
      obtain ⟨_, same, kept⟩ := refines
      cases same
      obtain ⟨last, term, boundary, above⟩ := Log.compact_invisible performed
      refine ⟨UInt64.toNat_inj.mp ?_, UInt64.toNat_inj.mp ?_, ?_, fun index inside => ?_⟩
      · rw [kept.lastIndex, represents.lastIndex, last]
      · rw [kept.lastTerm, represents.lastTerm, term]
      · apply Option.map_injective (fun _ _ => UInt64.toNat_inj.mp)
        rw [Option.map_map, Option.map_map]
        change (next.get snapshot.lastIncludedIndex.toNat).map _ =
          (abstract.get snapshot.lastIncludedIndex.toNat).map _ at boundary
        rwa [← kept.get, ← represents.get, Option.map_map, Option.map_map] at boundary
      · apply Option.map_injective MachineEntry.toLogEntry_injective
        rw [kept.get, represents.get]
        exact above index.toNat (UInt64.lt_iff_toNat_lt.mp inside)

theorem perform_failed {error : LogError} (failed : log.perform call = (after, .error error)) : after = log := by
  cases call with
  | truncateFrom index => cases failed
  | append entry =>
      simp only [perform, append] at failed
      split at failed
      · cases failed
        rfl
      · cases failed
  | compact snapshot =>
      simp only [perform, compact] at failed
      split at failed
      · cases failed
        rfl
      · split at failed
        · cases failed
          rfl
        · split at failed
          · split at failed
            · cases failed
              rfl
            · cases failed
          · split at failed
            · cases failed
              rfl
            · split at failed
              · cases failed
                rfl
              · cases failed
  | restoreSnapshot snapshot =>
      simp only [perform, restoreSnapshot] at failed
      split at failed
      · cases failed
        rfl
      · split at failed
        · split at failed
          · cases failed
            rfl
          · cases failed
        · cases failed

theorem Represents.transparent (represents : log.Represents abstract) : log.Transparent where
  indexes := by
    have numbered := abstract.numbered.map_index
    rw [← represents.entries, List.map_map, ← represents.index] at numbered
    have last := abstract.lastIndex_eq
    rw [← represents.entries, ← represents.lastIndex, ← represents.index] at last
    rw [last, Nat.add_sub_cancel_left]
    exact numbered
  get := represents.get_isSome_iff
  compact _ _ compacted := represents.compact_invisible compacted
  restore snapshot ahead := by
    unfold MachineLog.restoreSnapshot
    rw [if_neg (UInt64.lt_asymm ahead), if_neg (UInt64.ne_of_lt ahead).symm]
    refine ⟨_, rfl, rfl, rfl, fun entry found same => ?_, fun other => ?_⟩
    · exact if_pos (by simp [MachineLog.boundaryMatches, found, same])
    · refine if_neg fun agree => ?_
      simp only [MachineLog.boundaryMatches, Option.any_eq_true, decide_eq_true_eq] at agree
      obtain ⟨entry, found, same⟩ := agree
      exact other entry found same
  failed _ _ _ := perform_failed

/-- Compaction is invisible: after any calls, of which none appends an entry with index 0 behind the entry
with the largest index there is, readers find in the log what they rely on. -/
theorem compaction_invisible (reached : Reaches step (fun log call => ¬ log.wrapsAround call) new log) :
    log.Transparent := by
  have represented : ∃ abstract, log.Represents abstract := by
    refine reached.invariant (fun log => ∃ abstract, log.Represents abstract) ⟨_, new_represents⟩ ?_
    rintro before call after ⟨abstract, represents⟩ fits stepped
    exact represents.step fits stepped
  obtain ⟨abstract, represents⟩ := represented
  exact represents.transparent

/-- Three entries, of which two are compacted, one is cut off, and a snapshot that keeps nothing. -/
theorem compacted_log_transparent : ∃ log : MachineLog, log.lastIncludedIndex = 5 ∧ log.Transparent := by
  have run : ∃ log, Reaches step (fun log call => ¬ log.wrapsAround call) new log ∧ log.lastIncludedIndex = 5 :=
    Reaches.of_leadsTo (fun log call => !log.wrapsAround call) (fun _ _ fits => by simpa using fits)
      [.append ⟨1, 1, [7]⟩, .append ⟨2, 1, [8]⟩, .append ⟨2, 1, [8]⟩, .append ⟨3, 2, [9]⟩, .compact ⟨2, 1⟩,
        .truncateFrom 3, .restoreSnapshot ⟨5, 2⟩]
      (by decide +kernel)
  obtain ⟨log, reached, boundary⟩ := run
  exact ⟨log, boundary, compaction_invisible reached⟩

/-- After a snapshot at the largest index, an entry with index 0 is appended, and the boundary is beyond the
last index. -/
theorem wrapped_log_hides_boundary : ∃ log : MachineLog, Reaches step (fun _ _ => True) new log ∧
    ¬ log.Transparent := by
  have run : ∃ log, Reaches step (fun _ _ => True) new log ∧
      ((log.get 0xffffffffffffffff).isSome ∧ log.lastIndex = 0) :=
    Reaches.of_leadsTo (fun _ _ => true) (fun _ _ _ => trivial)
      [.restoreSnapshot ⟨0xffffffffffffffff, 1⟩, .append ⟨0, 1, []⟩] (by decide +kernel)
  obtain ⟨log, reached, found, last⟩ := run
  refine ⟨log, reached, fun transparent => ?_⟩
  have within := ((transparent.get _).mp found).2.2
  rw [last] at within
  exact absurd within (by decide)

end MachineLog

end Raftiq
