import Raftiq.Types
import Mathlib.Data.List.Infix
import Mathlib.Data.List.TakeWhile

namespace Raftiq

/-- Entries that follow index `base` without a gap. -/
def Numbered : ℕ → List LogEntry → Prop
  | _, [] => True
  | base, entry :: rest => entry.index = base + 1 ∧ Numbered (base + 1) rest

namespace Numbered

instance decidable : (base : ℕ) → (entries : List LogEntry) → Decidable (Numbered base entries)
  | _, [] => .isTrue trivial
  | base, entry :: rest =>
      have := decidable (base + 1) rest
      inferInstanceAs (Decidable (entry.index = base + 1 ∧ Numbered (base + 1) rest))

theorem append_iff {base : ℕ} {front back : List LogEntry} :
    Numbered base (front ++ back) ↔ Numbered base front ∧ Numbered (base + front.length) back := by
  induction front generalizing base with
  | nil => simp [Numbered]
  | cons head rest ih =>
      simp only [List.cons_append, Numbered, List.length_cons, ih, and_assoc]
      rw [Nat.add_right_comm, Nat.add_assoc]

theorem take {base : ℕ} {entries : List LogEntry} (numbered : Numbered base entries) (n : ℕ) :
    Numbered base (entries.take n) := by
  rw [← List.take_append_drop n entries, append_iff] at numbered
  exact numbered.1

theorem drop {base : ℕ} {entries : List LogEntry} (numbered : Numbered base entries) (n : ℕ)
    (short : n ≤ entries.length) : Numbered (base + n) (entries.drop n) := by
  rw [← List.take_append_drop n entries, append_iff, List.length_take, Nat.min_eq_left short] at numbered
  exact numbered.2

theorem of_front {base : ℕ} {front entries : List LogEntry} (numbered : Numbered base entries)
    (inside : front <+: entries) : Numbered base front := by
  obtain ⟨back, rfl⟩ := inside
  exact (append_iff.mp numbered).1

theorem mem_index {base : ℕ} {entries : List LogEntry} (numbered : Numbered base entries)
    {entry : LogEntry} (member : entry ∈ entries) :
    base < entry.index ∧ entry.index ≤ base + entries.length := by
  induction entries generalizing base with
  | nil => simp at member
  | cons head rest ih =>
      rcases List.mem_cons.mp member with rfl | later
      · simp only [numbered.1, List.length_cons]
        omega
      · have bounds := ih numbered.2 later
        simp only [List.length_cons]
        omega

theorem sorted {base : ℕ} {entries : List LogEntry} (numbered : Numbered base entries) :
    entries.Pairwise fun earlier later => earlier.index < later.index := by
  induction entries generalizing base with
  | nil => exact .nil
  | cons head rest ih =>
      refine List.pairwise_cons.mpr ⟨fun later member => ?_, ih numbered.2⟩
      have bounds := numbered.2.mem_index member
      have first := numbered.1
      omega

theorem getLast?_index {base : ℕ} {entries : List LogEntry} (numbered : Numbered base entries)
    {entry : LogEntry} (last : entries.getLast? = some entry) : entry.index = base + entries.length := by
  obtain ⟨front, rfl⟩ := List.getLast?_eq_some_iff.mp last
  have final := (append_iff.mp numbered).2.1
  simp only [List.length_append, List.length_singleton]
  omega

theorem find?_index {base : ℕ} {entries : List LogEntry} (numbered : Numbered base entries)
    (index : ℕ) (above : base < index) :
    entries.find? (·.index = index) = entries[index - base - 1]? := by
  induction entries generalizing base with
  | nil => simp
  | cons head rest ih =>
      by_cases first : index = base + 1
      · have found : head.index = index := by rw [numbered.1, first]
        simp [found, first]
      · have other : head.index ≠ index := by
          rw [numbered.1]
          omega
        have shift : index - base - 1 = (index - (base + 1) - 1) + 1 := by omega
        rw [List.find?_cons_of_neg (by simpa using other), ih numbered.2 (by omega), shift,
          List.getElem?_cons_succ]

theorem getElem?_index {base position : ℕ} {entries : List LogEntry} {entry : LogEntry}
    (numbered : Numbered base entries) (found : entries[position]? = some entry) :
    entry.index = base + position + 1 := by
  have located := numbered.find?_index (base + position + 1) (by omega)
  rw [show base + position + 1 - base - 1 = position by omega, found] at located
  simpa using List.find?_some located

/-- There is one entry for each index. -/
theorem eq_of_index {base : ℕ} {entries : List LogEntry} (numbered : Numbered base entries)
    {entry other : LogEntry} (member : entry ∈ entries) (memberToo : other ∈ entries)
    (same : entry.index = other.index) : entry = other := by
  obtain ⟨position, found⟩ := List.getElem?_of_mem member
  obtain ⟨place, foundToo⟩ := List.getElem?_of_mem memberToo
  have index := numbered.getElem?_index found
  have indexToo := numbered.getElem?_index foundToo
  obtain rfl : position = place := by omega
  exact Option.some.inj (found.symm.trans foundToo)

theorem find?_index_eq_none {base : ℕ} {entries : List LogEntry}
    (numbered : Numbered base entries) (index : ℕ) (below : index ≤ base) :
    entries.find? (·.index = index) = none := by
  simp only [List.find?_eq_none, decide_eq_true_eq]
  intro entry member
  have bounds := numbered.mem_index member
  omega

theorem filter_index {base : ℕ} {entries : List LogEntry} (numbered : Numbered base entries)
    (index : ℕ) : entries.filter (index < ·.index) = entries.drop (index - base) := by
  induction entries generalizing base with
  | nil => simp
  | cons head rest ih =>
      rcases Nat.lt_or_ge base index with above | below
      · have skipped : ¬ index < head.index := by
          rw [numbered.1]
          omega
        have shift : index - base = (index - (base + 1)) + 1 := by omega
        rw [List.filter_cons_of_neg (by simpa using skipped), ih numbered.2, shift, List.drop_succ_cons]
      · have kept : index < head.index := by
          rw [numbered.1]
          omega
        rw [List.filter_cons_of_pos (by simpa using kept), ih numbered.2]
        simp [Nat.sub_eq_zero_of_le below, Nat.sub_eq_zero_of_le (Nat.le_succ_of_le below)]

theorem takeWhile_index {base : ℕ} {entries : List LogEntry} (numbered : Numbered base entries)
    (index : ℕ) : entries.takeWhile (·.index < index) = entries.take (index - base - 1) := by
  induction entries generalizing base with
  | nil => simp
  | cons head rest ih =>
      rcases Nat.lt_or_ge (base + 1) index with above | below
      · have kept : head.index < index := by
          rw [numbered.1]
          omega
        have shift : index - base - 1 = (index - (base + 1) - 1) + 1 := by omega
        rw [List.takeWhile_cons_of_pos (by simpa using kept), ih numbered.2, shift, List.take_succ_cons]
      · have cut : ¬ head.index < index := by
          rw [numbered.1]
          omega
        have shift : index - base - 1 = 0 := by omega
        rw [List.takeWhile_cons_of_neg (by simpa using cut), shift, List.take_zero]

theorem filter_below {base : ℕ} {entries : List LogEntry} (numbered : Numbered base entries)
    (index : ℕ) : entries.filter (·.index < index) = entries.takeWhile (·.index < index) := by
  induction entries generalizing base with
  | nil => rfl
  | cons head rest ih =>
      by_cases below : head.index < index
      · rw [List.filter_cons_of_pos (by simpa using below), List.takeWhile_cons_of_pos (by simpa using below),
          ih numbered.2]
      · rw [List.filter_cons_of_neg (by simpa using below), List.takeWhile_cons_of_neg (by simpa using below),
          List.filter_eq_nil_iff]
        intro later member
        have beyond := (numbered.2.mem_index member).1
        have first := numbered.1
        simp only [decide_eq_true_eq]
        omega

end Numbered

inductive LogError where
  | invalidIndex (got expected : ℕ)
  | compactBackwards (current requested : ℕ)
  | compactBeyondLast (snapshot lastIndex : ℕ)
  | restoreBackwards (current requested : ℕ)
  | boundaryNotFound (index : ℕ)
  | snapshotTermMismatch (index : ℕ) (current requested : ℕ)
deriving DecidableEq, Repr

structure Log where
  entries : List LogEntry
  lastIncludedIndex : ℕ
  lastIncludedTerm : ℕ
  numbered : Numbered lastIncludedIndex entries
  boundary : lastIncludedIndex = 0 → lastIncludedTerm = 0
deriving DecidableEq

namespace Log

def new : Log where
  entries := []
  lastIncludedIndex := 0
  lastIncludedTerm := 0
  numbered := trivial
  boundary _ := rfl

def lastIndex (log : Log) : ℕ :=
  match log.entries.getLast? with
  | none => log.lastIncludedIndex
  | some entry => entry.index

def lastTerm (log : Log) : ℕ :=
  match log.entries.getLast? with
  | none => log.lastIncludedTerm
  | some entry => entry.term

/-- The compaction boundary is answered with an entry that has no data. -/
def get (log : Log) (index : ℕ) : Option LogEntry :=
  if index = log.lastIncludedIndex ∧ index ≠ 0 then
    some { index := index, term := log.lastIncludedTerm, data := [] }
  else log.entries.find? (·.index = index)

theorem lastIndex_eq (log : Log) : log.lastIndex = log.lastIncludedIndex + log.entries.length := by
  unfold lastIndex
  cases last : log.entries.getLast? with
  | none => simp [List.getLast?_eq_none_iff.mp last]
  | some entry => exact log.numbered.getLast?_index last

def append (log : Log) (entry : LogEntry) : Except LogError Log :=
  if next : entry.index = log.lastIndex + 1 then
    .ok {
      log with
      entries := log.entries ++ [entry]
      numbered := Numbered.append_iff.mpr ⟨log.numbered, by rw [next, lastIndex_eq], trivial⟩ }
  else .error (.invalidIndex entry.index (log.lastIndex + 1))

theorem append_cases (log : Log) (entry : LogEntry) :
    (∃ after, log.append entry = .ok after ∧ entry.index = log.lastIndex + 1 ∧
        after.entries = log.entries ++ [entry] ∧ after.lastIncludedIndex = log.lastIncludedIndex ∧
        after.lastIncludedTerm = log.lastIncludedTerm ∧ after.lastIndex = log.lastIndex + 1) ∨
      entry.index ≠ log.lastIndex + 1 ∧
        log.append entry = .error (.invalidIndex entry.index (log.lastIndex + 1)) := by
  unfold append
  split
  · rename_i next
    refine Or.inl ⟨_, rfl, next, rfl, rfl, rfl, ?_⟩
    rw [lastIndex_eq, lastIndex_eq]
    simp only [List.length_append, List.length_singleton, Nat.add_assoc]
  · rename_i other
    exact Or.inr ⟨other, rfl⟩

def truncateFrom (log : Log) (index : ℕ) : Log :=
  if index = 0 then { log with entries := [], numbered := trivial }
  else if index ≤ log.lastIncludedIndex then log
  else
    { log with
      entries := log.entries.takeWhile (·.index < index)
      numbered := log.numbered.of_front (List.takeWhile_prefix _) }

theorem truncateFrom_above (log : Log) {index : ℕ} (above : log.lastIncludedIndex < index) :
    (log.truncateFrom index).entries = log.entries.takeWhile (·.index < index) ∧
      (log.truncateFrom index).lastIncludedIndex = log.lastIncludedIndex := by
  unfold truncateFrom
  rw [if_neg (by omega), if_neg (by omega)]
  exact ⟨rfl, rfl⟩

/-- The entries above an index the log has reached. -/
def suffixAbove (log : Log) (index : ℕ) (term : ℕ) (ahead : log.lastIncludedIndex < index)
    (reached : index ≤ log.lastIndex) : Log where
  entries := log.entries.filter (index < ·.index)
  lastIncludedIndex := index
  lastIncludedTerm := term
  numbered := by
    rw [log.numbered.filter_index]
    have kept := log.numbered.drop (index - log.lastIncludedIndex) (by rw [lastIndex_eq] at reached; omega)
    rwa [Nat.add_sub_cancel' ahead.le] at kept
  boundary zero := by omega

theorem get_le_lastIndex {log : Log} {index : ℕ} {entry : LogEntry}
    (found : log.get index = some entry) : index ≤ log.lastIndex := by
  rw [lastIndex_eq]
  unfold get at found
  split at found
  · omega
  · have member := List.mem_of_find?_eq_some found
    have same := List.find?_some found
    have bounds := log.numbered.mem_index member
    simp only [decide_eq_true_eq] at same
    omega

def compact (log : Log) (snapshot : Snapshot) : Except LogError Log :=
  if backwards : snapshot.lastIncludedIndex < log.lastIncludedIndex then
    .error (.compactBackwards log.lastIncludedIndex snapshot.lastIncludedIndex)
  else if beyond : snapshot.lastIncludedIndex > log.lastIndex then
    .error (.compactBeyondLast snapshot.lastIncludedIndex log.lastIndex)
  else if same : snapshot.lastIncludedIndex = log.lastIncludedIndex then
    if snapshot.lastIncludedTerm ≠ log.lastIncludedTerm then
      .error (.snapshotTermMismatch snapshot.lastIncludedIndex log.lastIncludedTerm
        snapshot.lastIncludedTerm)
    else .ok log
  else
    match log.get snapshot.lastIncludedIndex with
    | none => .error (.boundaryNotFound snapshot.lastIncludedIndex)
    | some entry =>
        if entry.term ≠ snapshot.lastIncludedTerm then
          .error (.snapshotTermMismatch snapshot.lastIncludedIndex entry.term snapshot.lastIncludedTerm)
        else
          .ok (log.suffixAbove snapshot.lastIncludedIndex snapshot.lastIncludedTerm
            (by omega) (by omega))

theorem filter_boundary (log : Log) :
    log.entries.filter (log.lastIncludedIndex < ·.index) = log.entries := by
  rw [log.numbered.filter_index, Nat.sub_self, List.drop_zero]

theorem boundary_le_of_get {log : Log} {index : ℕ} {entry : LogEntry} (found : log.get index = some entry) :
    log.lastIncludedIndex ≤ index := by
  by_contra below
  unfold get at found
  rw [if_neg (by omega), log.numbered.find?_index_eq_none _ (by omega)] at found
  cases found

/-- A log can be compacted to any of its indexes. -/
theorem compact_found {log : Log} {snapshot : Snapshot} {entry : LogEntry}
    (found : log.get snapshot.lastIncludedIndex = some entry)
    (same : entry.term = snapshot.lastIncludedTerm) :
    ∃ after, log.compact snapshot = .ok after ∧
      after.entries = log.entries.filter (snapshot.lastIncludedIndex < ·.index) ∧
      after.lastIncludedIndex = snapshot.lastIncludedIndex := by
  have reached := get_le_lastIndex found
  have above := boundary_le_of_get found
  unfold compact
  rw [dif_neg (by omega), dif_neg (by omega)]
  split
  · rename_i boundary
    have agree : snapshot.lastIncludedTerm = log.lastIncludedTerm := by
      by_cases zero : snapshot.lastIncludedIndex = 0
      · unfold get at found
        rw [zero, if_neg (by simp), log.numbered.find?_index_eq_none 0 (Nat.zero_le _)] at found
        cases found
      · unfold get at found
        rw [if_pos ⟨boundary, zero⟩] at found
        rw [← same, ← Option.some.inj found]
    rw [if_neg (not_not.mpr agree), boundary, filter_boundary]
    exact ⟨log, rfl, rfl, rfl⟩
  · rw [found]
    dsimp only
    rw [if_neg (not_not.mpr same)]
    exact ⟨_, rfl, rfl, rfl⟩

/-- A log that knows nothing but the boundary of a snapshot. -/
def boundaryOnly (snapshot : Snapshot) (nonzero : 0 < snapshot.lastIncludedIndex) : Log where
  entries := []
  lastIncludedIndex := snapshot.lastIncludedIndex
  lastIncludedTerm := snapshot.lastIncludedTerm
  numbered := trivial
  boundary := by omega

def boundaryMatches (log : Log) (snapshot : Snapshot) : Bool :=
  (log.get snapshot.lastIncludedIndex).any (·.term = snapshot.lastIncludedTerm)

theorem boundaryMatches_le_lastIndex {log : Log} {snapshot : Snapshot}
    (agree : log.boundaryMatches snapshot) : snapshot.lastIncludedIndex ≤ log.lastIndex := by
  cases found : log.get snapshot.lastIncludedIndex with
  | none => simp [boundaryMatches, found] at agree
  | some entry => exact get_le_lastIndex found

def restoreSnapshot (log : Log) (snapshot : Snapshot) : Except LogError Log :=
  if backwards : snapshot.lastIncludedIndex < log.lastIncludedIndex then
    .error (.restoreBackwards log.lastIncludedIndex snapshot.lastIncludedIndex)
  else if same : snapshot.lastIncludedIndex = log.lastIncludedIndex then
    if snapshot.lastIncludedTerm ≠ log.lastIncludedTerm then
      .error (.snapshotTermMismatch snapshot.lastIncludedIndex log.lastIncludedTerm
        snapshot.lastIncludedTerm)
    else .ok log
  else if agree : log.boundaryMatches snapshot then
    .ok (log.suffixAbove snapshot.lastIncludedIndex snapshot.lastIncludedTerm
      (by omega) (boundaryMatches_le_lastIndex agree))
  else .ok (boundaryOnly snapshot (by omega))

theorem restoreSnapshot_boundary {log : Log} {snapshot : Snapshot}
    (same : snapshot.lastIncludedIndex = log.lastIncludedIndex) :
    log.restoreSnapshot snapshot = .ok log ∨ ∃ error, log.restoreSnapshot snapshot = .error error := by
  unfold restoreSnapshot
  rw [dif_neg (by omega), dif_pos same]
  split
  · exact Or.inr ⟨_, rfl⟩
  · exact Or.inl rfl

theorem restoreSnapshot_ok {log : Log} {snapshot : Snapshot}
    (ahead : log.lastIncludedIndex < snapshot.lastIncludedIndex) :
    log.restoreSnapshot snapshot =
      .ok (if agree : log.boundaryMatches snapshot then
        log.suffixAbove snapshot.lastIncludedIndex snapshot.lastIncludedTerm ahead
          (boundaryMatches_le_lastIndex agree)
      else boundaryOnly snapshot (Nat.zero_lt_of_lt ahead)) := by
  unfold restoreSnapshot
  rw [dif_neg (by omega), dif_neg (by omega)]
  split
  · rfl
  · rfl

/-- A snapshot ahead of the boundary keeps the entries above it or none. -/
theorem restoreSnapshot_ahead {log : Log} {snapshot : Snapshot}
    (ahead : log.lastIncludedIndex < snapshot.lastIncludedIndex) :
    ∃ after, log.restoreSnapshot snapshot = .ok after ∧
      after.lastIncludedIndex = snapshot.lastIncludedIndex ∧
      (after.entries = log.entries.filter (snapshot.lastIncludedIndex < ·.index) ∨ after.entries = []) := by
  rw [restoreSnapshot_ok ahead]
  refine ⟨_, rfl, ?_⟩
  split
  · exact ⟨rfl, Or.inl rfl⟩
  · exact ⟨rfl, Or.inr rfl⟩

/-- Neither compaction nor a snapshot brings entries into the log. -/
theorem restoreSnapshot_subset {log after : Log} {snapshot : Snapshot}
    (restored : log.restoreSnapshot snapshot = .ok after) : after.entries ⊆ log.entries := by
  unfold restoreSnapshot at restored
  split at restored
  · cases restored
  · split at restored
    · split at restored
      · cases restored
      · cases restored
        exact fun _ member => member
    · split at restored
      · cases restored
        exact List.filter_subset_self _
      · cases restored
        exact List.nil_subset _

/-- Compaction drops the entries up to the snapshot. -/
theorem compact_entries {log after : Log} {snapshot : Snapshot} (compacted : log.compact snapshot = .ok after) :
    after.entries = log.entries.filter (snapshot.lastIncludedIndex < ·.index) := by
  unfold compact at compacted
  split at compacted
  · cases compacted
  · split at compacted
    · cases compacted
    · split at compacted
      · rename_i same
        split at compacted
        · cases compacted
        · cases compacted
          rw [same, filter_boundary]
      · split at compacted
        · cases compacted
        · split at compacted
          · cases compacted
          · cases compacted
            rfl

theorem compact_subset {log after : Log} {snapshot : Snapshot} (compacted : log.compact snapshot = .ok after) :
    after.entries ⊆ log.entries :=
  compact_entries compacted ▸ List.filter_subset_self _

/-- An entry that is not the boundary is one of the entries. -/
theorem mem_of_get {log : Log} {index : ℕ} {entry : LogEntry} (found : log.get index = some entry) :
    entry.index = index ∧ (entry ∈ log.entries ∨ entry.data = []) := by
  unfold get at found
  split at found
  · cases found
    exact ⟨rfl, Or.inr rfl⟩
  · have same := List.find?_some found
    simp only [decide_eq_true_eq] at same
    exact ⟨same, Or.inl (List.mem_of_find?_eq_some found)⟩

end Log

end Raftiq
