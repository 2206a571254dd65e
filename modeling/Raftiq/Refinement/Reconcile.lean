import Raftiq.Raft.LogView
import Raftiq.Raft.Replication

namespace Raftiq

namespace RaftNode

variable {log : Log} {full incoming : List LogEntry}

/-- What the search for the first new entry finds, for entries that follow an agreed one. -/
def FirstNew.Finds (log : Log) (full incoming : List LogEntry) : FirstNew → Prop
  | .nothing => incoming <+: full
  | .missing entries =>
      full <+: incoming ∧ full.length < incoming.length ∧ entries = incoming.drop full.length
  | .conflict start entries => log.lastIncludedIndex < start ∧ start ≤ full.length ∧
      start ≤ incoming.length ∧ full.take (start - 1) = incoming.take (start - 1) ∧
      entries = incoming.drop (start - 1) ∧ ¬ incoming <+: full

theorem firstNew_finds (views : log.Views full) (numbered : Numbered 0 incoming)
    (matching : TermsMatch full incoming) {p : ℕ} (above : log.lastIncludedIndex ≤ p)
    (inside : p ≤ full.length) (agree : full.take p = incoming.take p) :
    (firstNew log (incoming.drop p)).Finds log full incoming := by
  induction rest : incoming.drop p generalizing p with
  | nil =>
      have short := List.drop_eq_nil_iff.mp rest
      rw [List.take_of_length_le short] at agree
      exact agree ▸ List.take_prefix _ _
  | cons entry tail ih =>
      have found : incoming[p]? = some entry := by
        rw [← List.head?_drop, rest]
        rfl
      have short : p < incoming.length := (List.getElem?_eq_some_iff.mp found).1
      have index : entry.index = p + 1 := by
        have located := numbered.getElem?_index found
        omega
      have looked : log.get entry.index = full[p]? := by
        rw [index, views.get_above (by omega), Nat.add_sub_cancel]
      unfold firstNew
      rw [looked]
      cases existing : full[p]? with
      | none =>
          have all : p = full.length := by
            have beyond := List.getElem?_eq_none_iff.mp existing
            omega
          subst all
          rw [List.take_length] at agree
          exact ⟨agree ▸ List.take_prefix _ _, short, rest.symm⟩
      | some held =>
          have within : p < full.length := (List.getElem?_eq_some_iff.mp existing).1
          have heldTerm := termAt_eq_of_getElem? existing
          have entryTerm := termAt_eq_of_getElem? found
          dsimp only
          split
          · rename_i differ
            refine ⟨by omega, by omega, by omega, ?_, ?_, ?_⟩
            · rw [index, Nat.add_sub_cancel]
              exact agree
            · rw [index, Nat.add_sub_cancel]
              exact rest.symm
            · intro below
              have same : termAt incoming (p + 1) = termAt full (p + 1) := termAt_of_front below (by omega)
              omega
          · rename_i same
            apply ih (p := p + 1) (by omega) (by omega)
            · apply matching (p + 1) (by omega) (by omega)
              rw [heldTerm, entryTerm]
              exact not_not.mp same
            · rw [← List.drop_drop, rest]
              rfl

/-- An entry that is compared with the boundary itself. -/
theorem firstNew_at_boundary (views : log.Views full) (single : log.lastIncludedIndex = 1) {first : LogEntry}
    {rest : List LogEntry} (one : first.index = 1) :
    firstNew log (first :: rest) =
      if termAt full 1 = first.term then firstNew log rest else .conflict 1 (first :: rest) := by
  have boundary := views.get_boundary (by omega)
  rw [single] at boundary
  rw [firstNew, one, boundary]
  by_cases same : termAt full 1 = first.term
  · simp [same]
  · simp [same]

/-- Entries that continue the log are all taken. -/
theorem appendEach_ok (views : log.Views full) {entries : List LogEntry}
    (numbered : Numbered full.length entries) :
    ∃ after, appendEach log entries = (after, .ok ()) ∧ after.Views (full ++ entries) ∧
      after.lastIncludedIndex = log.lastIncludedIndex := by
  induction entries generalizing log full with
  | nil => exact ⟨log, rfl, by simpa using views, rfl⟩
  | cons entry rest ih =>
      obtain ⟨next, appended⟩ := views.append_ok numbered.1
      obtain ⟨viewsNext, boundary⟩ := views.append appended
      obtain ⟨after, each, viewsAfter, same⟩ := ih viewsNext (by simpa using numbered.2)
      refine ⟨after, ?_, by simpa using viewsAfter, same.trans boundary⟩
      simp only [appendEach, appended, each]

/-- Looking up consecutive indexes above the boundary copies the rest of the log. -/
theorem collectEntries_eq {log : Log} {full : List LogEntry} (views : log.Views full) {start : ℕ}
    (above : log.lastIncludedIndex < start) (within : start ≤ full.length + 1) :
    collectEntries log (List.range' start (full.length + 1 - start)) = some (full.drop (start - 1)) := by
  induction left : full.length + 1 - start generalizing start with
  | zero =>
      have all : start - 1 = full.length := by omega
      simp [collectEntries, all]
  | succ count ih =>
      have short : start - 1 < full.length := by omega
      have rest : collectEntries log (List.range' (start + 1) count) = some (full.drop (start + 1 - 1)) :=
        ih (by omega) (by omega) (by omega)
      rw [List.range'_succ, collectEntries, views.get_above above, List.getElem?_eq_getElem short]
      dsimp only
      rw [rest, List.drop_eq_getElem_cons short, show start - 1 + 1 = start + 1 - 1 by omega]
      rfl

/-- A lookup that fails at the first index ends the loop. -/
theorem collectEntries_none {log : Log} {start count : ℕ} (missing : log.get start = none)
    (some : 0 < count) : collectEntries log (List.range' start count) = none := by
  obtain ⟨rest, rfl⟩ : ∃ rest, count = rest + 1 := ⟨count - 1, by omega⟩
  rw [List.range'_succ, collectEntries, missing]

theorem previousEntry_some {log : Log} {full : List LogEntry} (views : log.Views full)
    {nextIndex prevLogIndex prevLogTerm : ℕ}
    (previous : previousEntry log nextIndex = some (prevLogIndex, prevLogTerm)) :
    prevLogIndex = nextIndex - 1 ∧ prevLogIndex ≤ full.length ∧
      prevLogTerm = termAt full prevLogIndex ∧ (1 < nextIndex → log.lastIncludedIndex ≤ prevLogIndex) := by
  unfold previousEntry at previous
  split at previous
  · cases found : log.get (nextIndex - 1) with
    | none => simp [found] at previous
    | some entry =>
        rw [found] at previous
        cases previous
        obtain ⟨_, above, within, _, term⟩ := views.get_some found
        exact ⟨rfl, within, term, fun _ => above⟩
  · cases previous
    exact ⟨by omega, Nat.zero_le _, rfl, fun further => by omega⟩

end RaftNode

end Raftiq
