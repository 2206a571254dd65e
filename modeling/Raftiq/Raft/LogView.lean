import Raftiq.Raft.Log

namespace Raftiq

/-- The term of the entry at an index, zero before the first one. -/
def termAt (full : List LogEntry) (index : ℕ) : ℕ :=
  ((full.take index).getLast?.map (·.term)).getD 0

@[simp] theorem termAt_zero (full : List LogEntry) : termAt full 0 = 0 := rfl

theorem termAt_take {full : List LogEntry} {index n : ℕ} (inside : index ≤ n) :
    termAt (full.take n) index = termAt full index := by
  simp [termAt, List.take_take, Nat.min_eq_left inside]

theorem termAt_of_front {front full : List LogEntry} (inside : front <+: full) {index : ℕ}
    (short : index ≤ front.length) : termAt front index = termAt full index := by
  obtain ⟨back, rfl⟩ := inside
  simp [termAt, List.take_append_of_le_length short]

theorem termAt_append_left {front : List LogEntry} (back : List LogEntry) {index : ℕ}
    (short : index ≤ front.length) : termAt (front ++ back) index = termAt front index :=
  (termAt_of_front (List.prefix_append _ _) short).symm

theorem termAt_eq_of_getElem? {full : List LogEntry} {index : ℕ} {entry : LogEntry}
    (found : full[index]? = some entry) : termAt full (index + 1) = entry.term := by
  simp [termAt, List.take_add_one, found]

/-- Logs that have one term at one index agree up to it. -/
def TermsMatch (left right : List LogEntry) : Prop :=
  ∀ index, index ≤ left.length → index ≤ right.length → termAt left index = termAt right index →
    left.take index = right.take index

instance (left right : List LogEntry) : Decidable (TermsMatch left right) :=
  decidable_of_iff (∀ index < left.length + 1, index ≤ right.length → termAt left index = termAt right index →
      left.take index = right.take index)
    ⟨fun all index short => all index (Nat.lt_succ_of_le short), fun matching index short =>
      matching index (Nat.le_of_lt_succ short)⟩

namespace Log

/-- A compacted log shows a full one above its boundary. -/
structure Views (log : Log) (full : List LogEntry) : Prop where
  numbered : Numbered 0 full
  inside : log.lastIncludedIndex ≤ full.length
  entries : log.entries = full.drop log.lastIncludedIndex
  term : log.lastIncludedTerm = termAt full log.lastIncludedIndex

theorem new_views : new.Views [] where
  numbered := trivial
  inside := le_rfl
  entries := rfl
  term := rfl

namespace Views

variable {log after : Log} {full : List LogEntry} {index : ℕ} {entry : LogEntry}

theorem lastIndex (views : log.Views full) : log.lastIndex = full.length := by
  have inside := views.inside
  rw [lastIndex_eq, views.entries, List.length_drop]
  omega

theorem lastTerm (views : log.Views full) : log.lastTerm = termAt full full.length := by
  unfold Log.lastTerm
  rw [views.entries]
  cases last : (full.drop log.lastIncludedIndex).getLast? with
  | none =>
      have reached : full.length ≤ log.lastIncludedIndex :=
        List.drop_eq_nil_iff.mp (List.getLast?_eq_none_iff.mp last)
      simp only [views.term, Nat.le_antisymm views.inside reached]
  | some entry =>
      rw [List.getLast?_drop] at last
      split at last
      · simp at last
      · simp [termAt, last]

theorem get_boundary (views : log.Views full) (nonzero : log.lastIncludedIndex ≠ 0) :
    log.get log.lastIncludedIndex =
      some { index := log.lastIncludedIndex, term := termAt full log.lastIncludedIndex, data := [] } := by
  simp [Log.get, nonzero, views.term]

theorem get_above (views : log.Views full) (above : log.lastIncludedIndex < index) :
    log.get index = full[index - 1]? := by
  have other : ¬ (index = log.lastIncludedIndex ∧ index ≠ 0) := by omega
  unfold Log.get
  rw [if_neg other, log.numbered.find?_index index above, views.entries, List.getElem?_drop]
  congr 1
  omega

theorem get_below (below : index < log.lastIncludedIndex) : log.get index = none := by
  have other : ¬ (index = log.lastIncludedIndex ∧ index ≠ 0) := by omega
  unfold Log.get
  rw [if_neg other]
  exact log.numbered.find?_index_eq_none index below.le

theorem get_zero : log.get 0 = none := by
  unfold Log.get
  rw [if_neg (by simp)]
  exact log.numbered.find?_index_eq_none 0 (Nat.zero_le _)

/-- What a reader learns from a successful lookup. -/
theorem get_some (views : log.Views full) (found : log.get index = some entry) :
    0 < index ∧ log.lastIncludedIndex ≤ index ∧ index ≤ full.length ∧ entry.index = index ∧
      entry.term = termAt full index := by
  rcases Nat.lt_trichotomy index log.lastIncludedIndex with below | same | above
  · simp [get_below below] at found
  · subst same
    have nonzero : log.lastIncludedIndex ≠ 0 := by
      intro zero
      rw [zero, get_zero] at found
      simp at found
    rw [views.get_boundary nonzero] at found
    simp only [Option.some.injEq] at found
    subst found
    exact ⟨Nat.pos_of_ne_zero nonzero, le_rfl, views.inside, rfl, rfl⟩
  · rw [views.get_above above] at found
    obtain ⟨position, rfl⟩ : ∃ position, index = position + 1 := ⟨index - 1, by omega⟩
    simp only [Nat.add_sub_cancel] at found
    have short := (List.getElem?_eq_some_iff.mp found).1
    have member := List.mem_of_getElem? found
    have indexed := views.numbered.find?_index (position + 1) (by omega)
    simp only [Nat.sub_zero, Nat.add_sub_cancel, found] at indexed
    have same := List.find?_some indexed
    exact ⟨by omega, by omega, by omega, by simpa using same, (termAt_eq_of_getElem? found).symm⟩

theorem get_eq_none (views : log.Views full) (missing : log.get index = none) :
    index = 0 ∨ index < log.lastIncludedIndex ∨ full.length < index := by
  rcases Nat.lt_trichotomy index log.lastIncludedIndex with below | same | above
  · exact Or.inr (Or.inl below)
  · subst same
    by_cases zero : log.lastIncludedIndex = 0
    · exact Or.inl zero
    · simp [views.get_boundary zero] at missing
  · rw [views.get_above above, List.getElem?_eq_none_iff] at missing
    omega

theorem append (views : log.Views full) (appended : log.append entry = .ok after) :
    after.Views (full ++ [entry]) ∧ after.lastIncludedIndex = log.lastIncludedIndex := by
  have inside := views.inside
  unfold Log.append at appended
  split at appended
  · rename_i next
    cases appended
    rw [views.lastIndex] at next
    refine ⟨⟨Numbered.append_iff.mpr ⟨views.numbered, by simpa using next, trivial⟩, ?_, ?_, ?_⟩, rfl⟩
    · simpa using Nat.le_succ_of_le inside
    · simp only [views.entries, List.drop_append_of_le_length inside]
    · simp only [views.term, termAt_append_left [entry] inside]
  · simp at appended

theorem append_ok (views : log.Views full) (next : entry.index = full.length + 1) :
    ∃ after, log.append entry = .ok after := by
  unfold Log.append
  rw [dif_pos (by rw [views.lastIndex, next])]
  exact ⟨_, rfl⟩

theorem truncateFrom (views : log.Views full) (above : log.lastIncludedIndex < index) :
    (log.truncateFrom index).Views (full.take (index - 1)) ∧
      (log.truncateFrom index).lastIncludedIndex = log.lastIncludedIndex := by
  have inside := views.inside
  unfold Log.truncateFrom
  rw [if_neg (by omega), if_neg (by omega)]
  refine ⟨⟨views.numbered.take _, ?_, ?_, ?_⟩, rfl⟩
  · simp only [List.length_take]
    omega
  · change log.entries.takeWhile (·.index < index) = (full.take (index - 1)).drop log.lastIncludedIndex
    rw [log.numbered.takeWhile_index, views.entries, List.drop_take]
    congr 1
    omega
  · change log.lastIncludedTerm = termAt (full.take (index - 1)) log.lastIncludedIndex
    rw [views.term, termAt_take (by omega)]

theorem suffixAbove (views : log.Views full) (ahead : log.lastIncludedIndex < index)
    (reached : index ≤ log.lastIndex) :
    (log.suffixAbove index (termAt full index) ahead reached).Views full := by
  have within := reached
  rw [views.lastIndex] at within
  refine ⟨views.numbered, within, ?_, rfl⟩
  change log.entries.filter (index < ·.index) = full.drop index
  rw [log.numbered.filter_index, views.entries, List.drop_drop]
  congr 1
  omega

variable {snapshot : Snapshot}

theorem compact (views : log.Views full) (compacted : log.compact snapshot = .ok after) :
    after.Views full ∧ after.lastIncludedIndex = snapshot.lastIncludedIndex ∧
      log.lastIncludedIndex ≤ snapshot.lastIncludedIndex := by
  unfold Log.compact at compacted
  split at compacted
  · simp at compacted
  · rename_i forwards
    split at compacted
    · simp at compacted
    · rename_i within
      split at compacted
      · rename_i same
        split at compacted
        · simp at compacted
        · cases compacted
          exact ⟨views, same.symm, by omega⟩
      · split at compacted
        · simp at compacted
        · rename_i entry found
          split at compacted
          · simp at compacted
          · rename_i sameTerm
            cases compacted
            obtain ⟨_, _, _, _, term⟩ := views.get_some found
            refine ⟨?_, rfl, by omega⟩
            have boundaryTerm : snapshot.lastIncludedTerm = termAt full snapshot.lastIncludedIndex := by
              rw [← term]
              simpa using (Eq.symm (not_not.mp sameTerm))
            simp only [boundaryTerm]
            exact views.suffixAbove (by omega) (by omega)

/-- Restoring a snapshot keeps a log that agrees at the boundary and forgets any other. -/
theorem restoreSnapshot (views : log.Views full) {incoming : List LogEntry}
    (numbered : Numbered 0 incoming) (length : incoming.length = snapshot.lastIncludedIndex)
    (term : termAt incoming incoming.length = snapshot.lastIncludedTerm)
    (restored : log.restoreSnapshot snapshot = .ok after) :
    after.lastIncludedIndex = snapshot.lastIncludedIndex ∧
      log.lastIncludedIndex ≤ snapshot.lastIncludedIndex ∧
      (after.Views full ∧ snapshot.lastIncludedIndex ≤ full.length ∧
          termAt full snapshot.lastIncludedIndex = snapshot.lastIncludedTerm ∨
        after.Views incoming ∧ after.entries = [] ∧
          (full.length < snapshot.lastIncludedIndex ∨
            termAt full snapshot.lastIncludedIndex ≠ snapshot.lastIncludedTerm)) := by
  unfold Log.restoreSnapshot at restored
  split at restored
  · simp at restored
  · split at restored
    · rename_i same
      split at restored
      · simp at restored
      · rename_i sameTerm
        cases restored
        refine ⟨same.symm, by omega, Or.inl ⟨views, same ▸ views.inside, ?_⟩⟩
        rw [same, ← views.term]
        exact (not_not.mp sameTerm).symm
    · rename_i forwards other
      split at restored
      · rename_i agree
        cases restored
        refine ⟨rfl, by omega, Or.inl ?_⟩
        cases found : log.get snapshot.lastIncludedIndex with
        | none => simp [boundaryMatches, found] at agree
        | some entry =>
            obtain ⟨_, _, within, _, entryTerm⟩ := views.get_some found
            have boundaryTerm : snapshot.lastIncludedTerm = termAt full snapshot.lastIncludedIndex := by
              simp only [boundaryMatches, found, Option.any_some, decide_eq_true_eq] at agree
              rw [← agree, entryTerm]
            simp only [boundaryTerm]
            exact ⟨views.suffixAbove (by omega) _, within, trivial⟩
      · rename_i disagree
        cases restored
        refine ⟨rfl, by omega, Or.inr ⟨⟨numbered, length.ge, ?_, ?_⟩, rfl, ?_⟩⟩
        · exact (List.drop_eq_nil_iff.mpr length.le).symm
        · change snapshot.lastIncludedTerm = termAt incoming snapshot.lastIncludedIndex
          rw [← length, term]
        · cases found : log.get snapshot.lastIncludedIndex with
          | none =>
              rcases views.get_eq_none found with zero | below | beyond
              · omega
              · omega
              · exact Or.inl beyond
          | some entry =>
              obtain ⟨_, _, _, _, entryTerm⟩ := views.get_some found
              simp only [boundaryMatches, found, Option.any_some, decide_eq_true_eq] at disagree
              exact Or.inr (entryTerm ▸ disagree)

end Views

end Log

end Raftiq
