import Raftiq.Kv.LockOrder
import Raftiq.SnapshotAgreement

namespace Raftiq

open Kv

/-! The locks that the servers of a cluster show, each at its own index. -/

section Committed

variable {codec : Codec} {committed : List LogEntry} {low high : ℕ} {key other : String} {lock another : Lock}

theorem commandsBetween_ascending (codec : Codec) (numbered : Numbered 0 committed) (high : ℕ) :
    Store.Ascending 0 ((commandsBetween committed 0 high).map codec.entry) := by
  refine Store.ascending_of_sorted ?_ fun command member => ?_
  · rw [List.pairwise_map]
    exact numbered.sorted.filter _
  · obtain ⟨entry, inside, rfl⟩ := List.mem_map.mp member
    exact (mem_commandsBetween.mp inside).2.1

theorem commandsBetween_enough (codec : Codec) (numbered : Numbered 0 committed) (short : high < 2 ^ 64) :
    Store.new.Enough ((commandsBetween committed 0 high).map codec.entry) := by
  refine Store.enough_of_ascending (commandsBetween_ascending codec numbered high) (fun command member => ?_) short
  obtain ⟨entry, inside, rfl⟩ := List.mem_map.mp member
  exact (mem_commandsBetween.mp inside).2.2.1

theorem commandsBetween_front (codec : Codec) (numbered : Numbered 0 committed) (below : low ≤ high) :
    (commandsBetween committed 0 low).map codec.entry <+: (commandsBetween committed 0 high).map codec.entry := by
  rw [commandsBetween_append numbered (Nat.zero_le low) below, List.map_append]
  exact List.prefix_append _ _

/-- A committed entry up to an index takes the lock away. -/
def EndedBy (codec : Codec) (committed : List LogEntry) (index : ℕ) (key : String) (lock : Lock) : Prop :=
  ∃ entry ∈ committed, entry.index ≤ index ∧
    ∃ command, codec.decodeCommand entry.data = some command ∧ Store.Ends command key lock

theorem stateAt_locks (numbered : Numbered 0 committed) (short : low < 2 ^ 64) (shortToo : high < 2 ^ 64)
    (held : (stateAt codec committed low).locks.get key = some lock)
    (heldToo : (stateAt codec committed high).locks.get other = some another) :
    lock.Agrees another ∧
      (key = other → lock.fencingToken < another.fencingToken → EndedBy codec committed high key lock) := by
  rw [stateAt_eq numbered] at held heldToo
  have enough := commandsBetween_enough codec numbered (max_lt short shortToo)
  have ascending := commandsBetween_ascending codec numbered (max low high)
  have first := commandsBetween_front codec numbered (le_max_left low high)
  have second := commandsBetween_front codec numbered (le_max_right low high)
  have agrees := Store.locks_agree enough ascending first second held heldToo
  refine ⟨agrees, fun same token => ?_⟩
  subst same
  obtain ⟨command, member, ended⟩ :=
    Store.lock_ended enough ascending first second held heldToo (agrees.index_lt token)
  obtain ⟨entry, inside, rfl⟩ := List.mem_map.mp member
  obtain ⟨committed, _, below, _⟩ := mem_commandsBetween.mp inside
  exact ⟨entry, committed, below, ended⟩

end Committed

namespace SnapshotServers

variable {cluster : Cluster} {codec : Codec} {threshold : ℕ} {servers : SnapshotServers}

def checksServed (codec : Codec) (servers : SnapshotServers) (action : SnapshotAction) : Bool :=
  checksSections codec servers action &&
    match action with
    | .capture _ => false
    | _ => true

theorem checksServed_sound (codec : Codec) (servers : SnapshotServers) (action : SnapshotAction)
    (checked : checksServed codec servers action) : servers.Orderly codec action := by
  obtain ⟨sections, served⟩ := Bool.and_eq_true_iff.mp checked
  refine checksSections_sound sections fun v captured => ?_
  subst captured
  cases served

end SnapshotServers

end Raftiq
