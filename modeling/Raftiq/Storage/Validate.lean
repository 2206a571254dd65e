import Raftiq.Storage.WAL

namespace Raftiq

/-! What the validation of entries accepts. -/

theorem validateEntriesFrom_some {position : ℕ} {before : LogEntry} {entries : List LogEntry} :
    validateEntriesFrom position (some before) entries = .ok () ↔ Numbered before.index entries := by
  induction entries generalizing position before with
  | nil => simp [validateEntriesFrom, Numbered]
  | cons entry rest ih =>
      simp only [validateEntriesFrom, Numbered]
      by_cases next : entry.index = before.index + 1
      · have nonzero : entry.index ≠ 0 := by omega
        rw [if_neg nonzero, if_neg (not_not.mpr next), ih, next]
        simp
      · split
        · simp [next]
        · simp [next]

theorem validateEntries_cons {first : LogEntry} {rest : List LogEntry} :
    validateEntries (first :: rest) = .ok () ↔ 0 < first.index ∧ Numbered first.index rest := by
  simp only [validateEntries, validateEntriesFrom]
  split
  · rename_i zero
    simp [zero]
  · rename_i nonzero
    rw [validateEntriesFrom_some]
    simp [Nat.pos_of_ne_zero nonzero]


/-- Numbered entries are what the validation accepts. -/
theorem Numbered.validates {base : ℕ} {entries : List LogEntry} (numbered : Numbered base entries) :
    validateEntries entries = .ok () := by
  cases entries with
  | nil => rfl
  | cons first rest =>
      obtain ⟨index, following⟩ := numbered
      rw [validateEntries_cons, index]
      exact ⟨base.succ_pos, following⟩

theorem Numbered.of_validates {first : LogEntry} {rest : List LogEntry}
    (validated : validateEntries (first :: rest) = .ok ()) :
    Numbered (first.index - 1) (first :: rest) := by
  obtain ⟨positive, following⟩ := validateEntries_cons.mp validated
  have index : first.index = first.index - 1 + 1 := by omega
  exact ⟨index, by rw [← index]; exact following⟩

theorem validateAppend_cons {existing : List LogEntry} {last first : LogEntry} {rest : List LogEntry}
    (ends : existing.getLast? = some last) :
    validateAppend existing (first :: rest) = .ok () ↔ first.index = last.index + 1 := by
  simp only [validateAppend, ends, List.head?_cons]
  split
  · rename_i other
    simp [other]
  · rename_i same
    simp [not_not.mp same]

/-- A store without entries accepts any first entry. -/
theorem validateAppend_nil (additions : List LogEntry) : validateAppend [] additions = .ok () := rfl

theorem validateReplaceSuffix_iff {snapshot : Option Snapshot} {start : ℕ} {entries : List LogEntry} :
    validateReplaceSuffix snapshot start entries = .ok () ↔
      0 < start ∧ (∀ stored, snapshot = some stored → stored.lastIncludedIndex < start) ∧
        validateEntries entries = .ok () ∧ ∀ first, entries.head? = some first → first.index = start := by
  unfold validateReplaceSuffix
  split
  · rename_i zero
    simp [zero]
  · rename_i nonzero
    split
    · rename_i stored covers
      rw [Option.filter_eq_some_iff] at covers
      simp only [reduceCtorEq, false_iff, not_and]
      intro _ above
      exact absurd (above stored covers.1) (not_lt.mpr (of_decide_eq_true covers.2))
    · rename_i none
      have above : ∀ stored, snapshot = some stored → stored.lastIncludedIndex < start := by
        simpa [Option.filter_eq_none_iff] using none
      cases validateEntries entries with
      | error error => simp
      | ok _ =>
          cases entries.head? with
          | none => simpa using ⟨Nat.pos_of_ne_zero nonzero, above⟩
          | some first =>
              by_cases index : first.index = start
              · simpa [index] using ⟨Nat.pos_of_ne_zero nonzero, above⟩
              · simp [index]

end Raftiq
