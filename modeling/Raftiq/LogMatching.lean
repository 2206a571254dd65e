import Raftiq.CommitSafety

namespace Raftiq

open Consensus

namespace Log

/-- Entries of one index and one term are the same entry, and below them the logs agree
wherever both still hold entries. -/
def Matches (left right : Log) : Prop :=
  ∀ entry ∈ left.entries, ∀ other ∈ right.entries, entry.index = other.index → entry.term = other.term →
    entry.data = other.data ∧ ∀ index, left.lastIncludedIndex < index → right.lastIncludedIndex < index →
      index < entry.index → left.get index = right.get index

variable {log other : Log} {full : List LogEntry} {entry : LogEntry}

theorem Views.of_mem (views : log.Views full) (member : entry ∈ log.entries) :
    log.lastIncludedIndex < entry.index ∧ full[entry.index - 1]? = some entry := by
  rw [views.entries] at member
  obtain ⟨position, found⟩ := List.getElem?_of_mem member
  rw [List.getElem?_drop] at found
  have index := views.numbered.getElem?_index found
  refine ⟨by omega, ?_⟩
  rw [index, Nat.zero_add, Nat.add_sub_cancel]
  exact found

/-- Logs that were copied from leaders match. -/
theorem matches_of_rooted {h : History} {fuller : List LogEntry} (views : log.Views full)
    (viewsToo : other.Views fuller) (rooted : h.Rooted full) (rootedToo : h.Rooted fuller) :
    log.Matches other := by
  intro entry member twin memberToo sameIndex sameTerm
  obtain ⟨above, found⟩ := views.of_mem member
  obtain ⟨aboveToo, foundToo⟩ := viewsToo.of_mem memberToo
  have short := (List.getElem?_eq_some_iff.mp found).1
  have shortToo := (List.getElem?_eq_some_iff.mp foundToo).1
  have agree : full.take entry.index = fuller.take entry.index := by
    have term := termAt_eq_of_getElem? found
    have termToo := termAt_eq_of_getElem? foundToo
    rw [Nat.sub_add_cancel (by omega)] at term termToo
    apply take_eq_of_termAt rooted rootedToo (by omega) (by omega)
    rw [term, sameIndex, termToo, sameTerm]
  have same : ∀ index, 0 < index → index ≤ entry.index → full[index - 1]? = fuller[index - 1]? := by
    intro index positive below
    rw [← List.getElem?_take_of_lt (by omega : index - 1 < entry.index), agree,
      List.getElem?_take_of_lt (by omega)]
  constructor
  · have twins := same entry.index (by omega) le_rfl
    rw [found, sameIndex, foundToo] at twins
    rw [Option.some.inj twins]
  · intro index aboveLeft aboveRight below
    rw [views.get_above aboveLeft, viewsToo.get_above aboveRight]
    exact same index (by omega) below.le

end Log

namespace World

/-- The logs of any two running nodes match. -/
def LogsMatch (world : World) : Prop :=
  ∀ v w left right, world.host v = .up left → world.host w = .up right → left.node.log.Matches right.node.log

theorem Tracks.logsMatch {cluster : Cluster} {regime : Regime} {h : History} {world : World}
    (tracks : world.Tracks cluster regime h) : world.LogsMatch := by
  intro v w left right up upToo
  have running := tracks.host v
  have runningToo := tracks.host w
  rw [up] at running
  rw [upToo] at runningToo
  exact Log.matches_of_rooted running.node.log runningToo.node.log (tracks.valid.sound.log_rooted v)
    (tracks.valid.sound.log_rooted w)

end World

/-- Snapshots may be taken, sent and installed. -/
def Regime.compacting : Regime where
  compacts := true
  commits := true

def Host.Holds (entries : List LogEntry) : Host → Prop
  | .up process => process.node.log.entries = entries
  | .down _ => False

instance (entries : List LogEntry) : DecidablePred (Host.Holds entries)
  | .up process => inferInstanceAs (Decidable (process.node.log.entries = entries))
  | .down _ => .isFalse id

theorem Host.Holds.up {entries : List LogEntry} {host : Host} (holds : host.Holds entries) :
    ∃ process, host = .up process ∧ process.node.log.entries = entries := by
  cases host with
  | up process => exact ⟨process, rfl, holds⟩
  | down wal => exact holds.elim

namespace Cluster

/-- Log matching, in runs in which no leader sends its compaction boundary as an entry. -/
theorem log_matching (cluster : Cluster) {world : World}
    (reached : Reaches cluster.step (fun world action => world.Allows .compacting action) cluster.initial world) :
    world.LogsMatch := by
  obtain ⟨h, _, tracks⟩ := reaches_tracks reached (cluster.initial_tracks .compacting)
  exact tracks.logsMatch

/-- A leader that has compacted entry 1 replicates entry 2. -/
theorem log_matching_trio : ∃ (world : World) (left right : Process),
    world.host "A" = .up left ∧ left.node.log.entries = [⟨2, 1, [8]⟩] ∧
      world.host "B" = .up right ∧ right.node.log.entries = [⟨1, 1, [7]⟩, ⟨2, 1, [8]⟩] ∧
      left.node.log.Matches right.node.log := by
  have run : ∃ world, Reaches trio.step (fun world action => world.Allows .compacting action) trio.initial
      world ∧ (world.host "A").Holds [⟨2, 1, [8]⟩] ∧
        (world.host "B").Holds [⟨1, 1, [7]⟩, ⟨2, 1, [8]⟩] :=
    Reaches.of_leadsTo (fun world action => decide (world.Allows .compacting action))
      (fun _ _ => of_decide_eq_true)
      (commitOne ++
        ([.act "A" (.pickCommitted .none .none), .act "A" .sendApplied, .act "A" .markApplied,
          .act "A" (.createSnapshot 1 [9] .none .none), .act "A" (.propose [8] .none),
          .act "A" (.replicateTo "B"),
          .act "B" (.receiveAppendEntries ⟨1, "A", 1, 1, [⟨2, 1, [8]⟩], 1⟩ .replication .none .none)] :
            List Action))
      (by decide +kernel)
  obtain ⟨world, reached, holds, holdsToo⟩ := run
  obtain ⟨left, up, entries⟩ := holds.up
  obtain ⟨right, upToo, entriesToo⟩ := holdsToo.up
  exact ⟨world, left, right, up, entries, upToo, entriesToo,
    log_matching trio reached "A" "B" left right up upToo⟩

/-- `A` commits entry 1 with `B`, compacts it, and its `InstallSnapshot` call to `C` is lost.
The `AppendEntries` call that follows carries the boundary: `C` stores entry 1 of term 1
without its data. -/
theorem boundary_breaks_log_matching : ∃ world,
    Reaches trio.step (fun _ action => action.regular) trio.initial world ∧ ¬ world.LogsMatch := by
  have run : ∃ world, Reaches trio.step (fun _ action => action.regular) trio.initial world ∧
      (world.host "B").Holds [⟨1, 1, [7]⟩] ∧ (world.host "C").Holds [⟨1, 1, []⟩] :=
    Reaches.of_leadsTo (fun _ action => action.regular) (fun _ _ regular => regular)
      (commitOne ++
        ([.act "A" (.pickCommitted .none .none), .act "A" .sendApplied, .act "A" .markApplied,
          .act "A" (.createSnapshot 1 [9] .none .none), .act "A" (.sendInstallSnapshot "C"),
          .act "A" (.replicateTo "C"),
          .act "C" (.receiveAppendEntries ⟨1, "A", 0, 0, [⟨1, 1, []⟩], 1⟩ .replication .none .none)] :
            List Action))
      (by decide +kernel)
  obtain ⟨world, reached, holds, holdsToo⟩ := run
  refine ⟨world, reached, fun logsMatch => ?_⟩
  obtain ⟨left, up, entries⟩ := holds.up
  obtain ⟨right, upToo, entriesToo⟩ := holdsToo.up
  have same := (logsMatch "B" "C" left right up upToo ⟨1, 1, [7]⟩ (by simp [entries]) ⟨1, 1, []⟩
    (by simp [entriesToo]) rfl rfl).1
  simp at same

end Cluster

end Raftiq
