import Raftiq.Refinement.Relation

namespace Raftiq

open Consensus

variable {cluster : Cluster} {regime : Regime} {h : History} {v : NodeID} {term boundary : ℕ}
  {vote : Option NodeID} {log : List LogEntry} {contents : Contents}

theorem Stored.withEntries (stored : Stored cluster regime h v term vote log boundary contents)
    {longer entries : List LogEntry} (kept : EntriesKept h term longer boundary entries) :
    Stored cluster regime h v term vote longer boundary { contents with entries := entries } :=
  { stored with entries := kept }

theorem Stored.withSnapshot (stored : Stored cluster regime h v term vote log boundary contents)
    {snapshot : Snapshot} (compacts : regime.compacts) (above : boundary ≤ snapshot.lastIncludedIndex)
    (sound : SnapshotSound cluster h term snapshot.lastIncludedIndex snapshot.lastIncludedTerm) :
    Stored cluster regime h v term vote log boundary { contents with snapshot := some snapshot } :=
  { stored with
    missing := fun none => by simp at none
    snapshot := fun found stored => by
      cases stored
      exact ⟨compacts, above, sound⟩ }

namespace EntriesKept

variable {entries added : List LogEntry}

theorem append (kept : EntriesKept h term log boundary entries) (inside : boundary ≤ log.length)
    {first : LogEntry} (begins : added.head? = some first) (next : first.index = log.length + 1)
    (accepted : validateAppend entries added = .ok ()) :
    EntriesKept h term (log ++ added) boundary (entries ++ added) := by
  cases kept with
  | whole same => exact .whole (by rw [same])
  | tight above => exact .tight (by rw [above, List.drop_append_of_le_length inside])
  | stuck length positive blocked recoverable =>
      obtain ⟨last, ends, _, other⟩ := blocked
      obtain ⟨rest, rfl⟩ := List.head?_eq_some_iff.mp begins
      have follows := (validateAppend_cons ends).mp accepted
      omega

theorem replace (kept : EntriesKept h term log boundary entries) (numbered : Numbered 0 log)
    {start : ℕ} (above : boundary < start) (within : start ≤ log.length) :
    EntriesKept h term (log.take (start - 1) ++ added) boundary
      (replaceSuffixCopy entries start added) := by
  unfold replaceSuffixCopy
  cases kept with
  | whole same =>
      rw [same, numbered.takeWhile_index, Nat.sub_zero]
      exact .whole rfl
  | tight tail =>
      have tailNumbered := numbered.drop boundary (by omega)
      rw [Nat.zero_add] at tailNumbered
      rw [tail, tailNumbered.takeWhile_index]
      apply EntriesKept.tight
      rw [List.drop_append_of_le_length (by rw [List.length_take]; omega), List.drop_take]
      congr 2
      omega
  | stuck length => omega

/-- Entries from index one arrive at a node that has compacted them away. -/
theorem rewind (kept : EntriesKept h term log boundary entries) (numbered : Numbered 0 log)
    (inside : boundary ≤ log.length) (positive : 0 < boundary) {incoming : List LogEntry}
    (numberedToo : Numbered 0 incoming) (some : incoming ≠ []) (rooted : h.Rooted incoming)
    (bounded : ∀ entry ∈ incoming, entry.term ≤ term)
    (comparable : log.take boundary <+: incoming ∨ incoming <+: log.take boundary)
    (accepted : validateAppend entries incoming = .ok ()) :
    EntriesKept h term log boundary (entries ++ incoming) := by
  obtain ⟨first, rest, rfl⟩ := List.exists_cons_of_ne_nil some
  have one : first.index = 1 := numberedToo.1
  -- nothing but an empty store accepts an entry with index one here
  have fits : ∀ last, entries.getLast? = .some last → last.index = 0 := by
    intro last ends
    have follows := (validateAppend_cons ends).mp accepted
    omega
  have empty : entries = [] ∧ log.length = boundary := by
    cases kept with
    | whole same =>
        cases ends : entries.getLast? with
        | none =>
            have none := List.getLast?_eq_none_iff.mp ends
            rw [none] at same
            simp [← same] at inside
            omega
        | some last =>
            have zero := fits last ends
            rw [same] at ends
            have index := numbered.getLast?_index ends
            omega
    | tight above =>
        cases ends : entries.getLast? with
        | none =>
            have none := List.getLast?_eq_none_iff.mp ends
            rw [none] at above
            exact ⟨none, Nat.le_antisymm (List.drop_eq_nil_iff.mp above.symm) inside⟩
        | some last =>
            have zero := fits last ends
            rw [above] at ends
            have tailNumbered := numbered.drop boundary inside
            have index := tailNumbered.getLast?_index ends
            omega
    | stuck _ _ blocked =>
        obtain ⟨last, ends, nonzero, _⟩ := blocked
        have zero := fits last ends
        omega
  obtain ⟨rfl, length⟩ := empty
  rw [← length, List.take_length] at comparable
  rw [List.nil_append]
  cases Nat.decEq (first :: rest).length boundary with
  | isTrue same =>
      have sameLength : log.length = (first :: rest).length := by omega
      rcases comparable with below | above
      · exact .whole (below.eq_of_length sameLength).symm
      · exact .whole (above.eq_of_length sameLength.symm)
  | isFalse other =>
      obtain ⟨last, ends⟩ : ∃ last, (first :: rest).getLast? = .some last :=
        ⟨_, List.getLast?_eq_some_getLast some⟩
      have index := numberedToo.getLast?_index ends
      refine .stuck length positive ⟨last, ends, ?_, ?_⟩ fun _ => ?_
      · simp only [List.length_cons] at index
        omega
      · omega
      · rcases comparable with below | above
        · exact Or.inr ⟨rooted, bounded, below⟩
        · have short := above.length_le
          exact Or.inl (by omega)

/-- Once the log ends at the boundary, entries above it only stand in the way. -/
theorem compact_at_end {index : ℕ} (length : log.length = index) (positive : 0 < index)
    (entries : List LogEntry) :
    EntriesKept h term log index (entries.filter (index < ·.index)) := by
  cases ends : (entries.filter (index < ·.index)).getLast? with
  | none =>
      rw [List.getLast?_eq_none_iff.mp ends]
      exact .tight (List.drop_eq_nil_iff.mpr length.le).symm
  | some last =>
      have above : index < last.index := by
        have member := List.mem_of_getLast? ends
        simpa using (List.mem_filter.mp member).2
      refine .stuck length positive ⟨last, ends, by omega, by omega⟩ fun numbered => ?_
      cases kept : entries.filter (index < ·.index) with
      | nil => simp [kept] at ends
      | cons first rest =>
          rw [kept] at numbered
          have one : first.index = 0 + 1 := numbered.1
          have member : first ∈ entries.filter (index < ·.index) := by simp [kept]
          have beyond : index < first.index := by simpa using (List.mem_filter.mp member).2
          omega

theorem compact (kept : EntriesKept h term log boundary entries) (numbered : Numbered 0 log) {index : ℕ}
    (above : boundary ≤ index) (positive : 0 < index) (within : index ≤ log.length) :
    EntriesKept h term log index (entries.filter (index < ·.index)) := by
  cases kept with
  | whole same =>
      rw [same, numbered.filter_index, Nat.sub_zero]
      exact .tight rfl
  | tight tail =>
      have tailNumbered := numbered.drop boundary (by omega)
      rw [tail, tailNumbered.filter_index, List.drop_drop]
      apply EntriesKept.tight
      congr 1
      omega
  | stuck length => exact compact_at_end (by omega) positive entries

end EntriesKept

end Raftiq
