import Raftiq.Raft.Retention
import Raftiq.Service

namespace Raftiq

open Kv

/-- What is written as an object is not taken for a configuration entry. -/
theorem Kv.Codec.plain (codec : Codec) (command : Command) :
    ¬ isConfigurationEntry (codec.encodeCommand command) := by
  have brace := codec.object command
  generalize codec.encodeCommand command = data at brace
  rcases data with _ | ⟨first, _ | ⟨second, _ | ⟨third, _ | ⟨fourth, rest⟩⟩⟩⟩
  · cases brace
  · exact Bool.false_ne_true
  · exact Bool.false_ne_true
  · exact Bool.false_ne_true
  · cases brace
    intro configuration
    unfold isConfigurationEntry at configuration
    rw [if_neg (by simp), decide_eq_true_iff] at configuration
    have value : (((0 * 256 + 0x7b) * 256 + second.toNat) * 256 + third.toNat) * 256 + fourth.toNat =
        configurationEntryMagic := configuration
    unfold configurationEntryMagic at value
    omega

namespace Request

variable {request : Request} {applier : Applier} {index : ℕ}

/-- An acknowledged call has seen its index applied, or the result that is kept for it. -/
theorem answer_ok {result : Option ApplyResult}
    (acknowledged : (request.answer applier index).2 = some (.ok result)) :
    result = none ∧ index ≤ applier.lastApplied ∨
      ∃ applied, result = some applied ∧ applier.results index = some applied := by
  unfold answer at acknowledged
  split at acknowledged
  · split at acknowledged
    · cases acknowledged
    · cases acknowledged
    · rename_i waited
      unfold Applier.waitResult at waited
      split at waited
      · rename_i found
        cases waited
        split at acknowledged
        · cases acknowledged
        · cases acknowledged
          exact Or.inr ⟨_, rfl, found⟩
      · split at waited
        · cases waited
        · cases waited
  · split at acknowledged
    · cases acknowledged
    · cases acknowledged
    · rename_i waited
      unfold Applier.waitApplied at waited
      split at waited
      · cases waited
      · split at waited
        · rename_i reached
          cases acknowledged
          exact Or.inl ⟨rfl, reached⟩
        · cases waited

/-- An answer only takes a result away. -/
theorem answer_applier (request : Request) (applier : Applier) (index : ℕ) :
    (request.answer applier index).1.lastApplied = applier.lastApplied ∧
      ∀ other result, (request.answer applier index).1.results other = some result →
        applier.results other = some result := by
  have waits : (applier.waitResult index).1.lastApplied = applier.lastApplied ∧
      ∀ other result, (applier.waitResult index).1.results other = some result →
        applier.results other = some result := by
    unfold Applier.waitResult
    split
    · refine ⟨rfl, fun other result kept => ?_⟩
      by_cases same : other = index
      · simp [same] at kept
      · simpa [Function.update_of_ne same] using kept
    · split
      · exact ⟨rfl, fun _ _ => id⟩
      · exact ⟨rfl, fun _ _ => id⟩
  unfold answer
  split
  · split
    · rename_i waited
      rwa [waited] at waits
    · rename_i waited
      rwa [waited] at waits
    · rename_i waited
      rw [waited] at waits
      split
      · exact waits
      · exact waits
  · split
    · exact ⟨rfl, fun _ _ => id⟩
    · exact ⟨rfl, fun _ _ => id⟩
    · exact ⟨rfl, fun _ _ => id⟩

end Request

/-- What leaders have committed: the entries up to the indexes to which they have raised their commit index. -/
def World.committedEntries (world : World) : List LogEntry :=
  world.trace.flatMap fun seen =>
    match seen.2 with
    | .committed _ index log => log.entries.filter (·.index ≤ index)
    | _ => []

theorem World.committedEntries_subset {world after : World} (kept : world.trace ⊆ after.trace) :
    world.committedEntries ⊆ after.committedEntries := by
  intro entry member
  obtain ⟨seen, earlier, inside⟩ := List.mem_flatMap.mp member
  exact List.mem_flatMap.mpr ⟨seen, kept earlier, inside⟩

namespace Replica

/-- The entries that the node has handed over since the last restore. -/
def handedOver (replica : Replica) : List LogEntry :=
  replica.consumer.applied ++ replica.consumer.pending ++ replica.process.applying.entry.toList

/-- The applier has seen committed entries only, and its results are theirs. -/
structure Applies (codec : Codec) (committed : List LogEntry) (replica : Replica) : Prop where
  picked : ∀ index entry, replica.process.applying = .picked index entry → entry.index = index
  handed : ∀ entry ∈ replica.handedOver, entry ∈ committed
  applied : ∀ entry ∈ replica.consumer.applied, entry.index ≤ replica.consumer.applier.lastApplied
  results : ∀ index result, replica.consumer.applier.results index = some result →
    index ≤ replica.consumer.applier.lastApplied ∧ ∃ entry ∈ committed, entry.index = index ∧
      ∃ store : Store, result = (store.apply (codec.entry entry)).2

variable {codec : Codec} {committed more : List LogEntry} {replica after : Replica} {event : ServerEvent}
  {entry : LogEntry}

theorem Applies.mono (applies : replica.Applies codec committed) (subset : committed ⊆ more) :
    replica.Applies codec more where
  picked := applies.picked
  handed entry member := subset (applies.handed entry member)
  applied := applies.applied
  results index result found := by
    obtain ⟨below, entry, member, known⟩ := applies.results index result found
    exact ⟨below, entry, subset member, known⟩

theorem Applies.of_node (applies : replica.Applies codec committed) (consumer : after.consumer = replica.consumer)
    (picked : ∀ index entry, after.process.applying = .picked index entry →
      entry.index = index ∧ entry ∈ committed) :
    after.Applies codec committed where
  picked index entry held := (picked index entry held).1
  handed entry member := by
    rw [handedOver, consumer, List.mem_append] at member
    rcases member with earlier | now
    · exact applies.handed entry (List.mem_append_left _ earlier)
    · cases held : after.process.applying with
      | picked index other =>
          simp only [held, ApplyStage.entry, Option.toList_some, List.mem_singleton] at now
          exact now ▸ (picked index other held).2
      | idle | sent index => simp [held, ApplyStage.entry] at now
  applied := consumer ▸ applies.applied
  results := consumer ▸ applies.results

theorem Applies.step (applies : replica.Applies codec committed) (picks : replica.Picks committed event)
    (stepped : replica.step codec event = some after) : after.Applies codec committed := by
  have held : ∀ index entry, replica.process.applying = .picked index entry →
      entry.index = index ∧ entry ∈ committed := fun index entry picked =>
    ⟨applies.picked index entry picked,
      applies.handed entry (List.mem_append_right _ (by simp [picked, ApplyStage.entry]))⟩
  cases step_moves stepped with
  | quiet consumer applied applying restored => exact applies.of_node consumer (applying ▸ held)
  | pick consumer idle next command node applying restored =>
      refine applies.of_node consumer fun index entry picked => ?_
      cases applying.symm.trans picked
      exact ⟨(RaftNode.nextCommitted_index next).2, picks _ next⟩
  | configure consumer idle next configuration applied applying restored =>
      refine applies.of_node consumer fun index entry picked => ?_
      cases applying.symm.trans picked
  | send picked same =>
      subst same
      refine ⟨fun _ _ sent => (by cases sent), fun entry member => applies.handed entry ?_, applies.applied,
        applies.results⟩
      simpa [handedOver, Consumer.pending, picked, ApplyStage.entry] using member
  | mark sent same =>
      subst same
      exact applies.of_node rfl fun _ _ picked => by cases picked
  | finish pending consumer finished applying restored kept => exact applies.of_node consumer (applying ▸ held)
  | restore restores consumer node applying restored kept done =>
      obtain ⟨_, _, results, _⟩ := Applier.restoreSnapshot_some restores
      refine ⟨applying ▸ applies.picked, fun entry member => applies.handed entry ?_, ?_, ?_⟩
      · rw [handedOver, consumer, applying] at member
        rw [handedOver, List.append_assoc]
        exact List.mem_append_right _ member
      · simp [consumer]
      · intro index result found
        rw [consumer] at found
        cases (results index).symm.trans found
  | receive running free queued same =>
      subst same
      refine ⟨applies.picked, fun entry member => applies.handed entry ?_, applies.applied, applies.results⟩
      simpa [handedOver, Consumer.pending, free, queued] using member
  | @apply entry received same =>
      subst same
      refine ⟨applies.picked, fun other member => applies.handed other ?_, fun other member => ?_,
        fun index result found => ?_⟩
      · simpa [handedOver, Consumer.pending, received] using member
      · rw [Applier.applyEntry_lastApplied]
        rcases List.mem_append.mp member with earlier | now
        · exact (applies.applied other earlier).trans (le_max_left _ _)
        · rw [List.mem_singleton.mp now]
          exact le_max_right _ _
      · have member : entry ∈ committed :=
          applies.handed entry (by simp [handedOver, Consumer.pending, received])
        rw [Applier.applyEntry_lastApplied]
        rw [Applier.applyEntry_results] at found
        have before : replica.consumer.applier.results index = some result → _ := fun kept =>
          (applies.results index result kept).imp_left (fun below => below.trans (le_max_left _ entry.index))
        split at found
        · by_cases same : index = entry.index
          · subst same
            rw [Function.update_self] at found
            exact ⟨le_max_right _ _, entry, member, rfl, _, (Option.some.inj found).symm⟩
          · rw [Function.update_of_ne same] at found
            exact before found
        · exact before found
  | stop same =>
      subst same
      exact ⟨applies.picked, applies.handed, applies.applied, applies.results⟩

theorem Applies.fresh (idle : replica.process.applying = .idle)
    (consumer : replica.consumer = .new replica.consumer.applier)
    (results : ∀ index, replica.consumer.applier.results index = none) : replica.Applies codec committed where
  picked _ _ picked := nomatch idle.symm.trans picked
  handed entry member := by
    rw [handedOver, consumer, idle] at member
    exact absurd member List.not_mem_nil
  applied entry member := by
    rw [consumer] at member
    exact absurd member List.not_mem_nil
  results index result found := nomatch (results index).symm.trans found

/-- A call that is answered takes nothing but its result. -/
theorem Applies.answered (applies : replica.Applies codec committed) (request : Request) (index : ℕ) :
    Applies codec committed { replica with consumer := { replica.consumer with
      applier := (request.answer replica.consumer.applier index).1 } } := by
  obtain ⟨same, fewer⟩ := request.answer_applier replica.consumer.applier index
  refine ⟨applies.picked, applies.handed, fun entry member => ?_, fun other result found => ?_⟩
  · dsimp only
    rw [same]
    exact applies.applied entry member
  · dsimp only
    rw [same]
    exact applies.results other result (fewer other result found)

/-- The entries at an index and above that have been handed over. -/
def since (replica : Replica) (index : ℕ) : List LogEntry :=
  replica.handedOver.filter (index ≤ ·.index)

/-- An entry of the log that is not handed over yet. -/
structure Open (replica : Replica) (entry : LogEntry) : Prop where
  ahead : replica.process.node.lastApplied < entry.index
  working : ∀ index ∈ replica.process.applying.index, index < entry.index
  unseen : replica.since entry.index = []
  kept : entry ∈ replica.process.node.log.entries

/-- A committed entry that has been handed over once, before all later ones. -/
structure Taken (committed : List LogEntry) (replica : Replica) (entry : LogEntry) : Prop where
  member : entry ∈ committed
  reached : entry.index ≤ replica.process.node.lastApplied ∨ replica.process.applying.index = some entry.index
  once : ∃ later, replica.since entry.index = entry :: later ∧ ∀ other ∈ later, entry.index < other.index

/-- How far the entry of a call in progress has come. -/
structure Waits (committed : List LogEntry) (replica : Replica) (entry : LogEntry) : Prop where
  reached : entry.index ≤ replica.consumer.applier.lastApplied →
    ∃ applied ∈ replica.consumer.applied, entry.index ≤ applied.index
  place : replica.Open entry ∨ replica.Taken committed entry

theorem Waits.mono (waits : replica.Waits committed entry) (subset : committed ⊆ more) :
    replica.Waits more entry where
  reached := waits.reached
  place := waits.place.imp_right fun taken => { taken with member := subset taken.member }

/-- A section that neither contradicts the log up to an index nor replaces the store. -/
def Spares (replica : Replica) (index : ℕ) : ServerEvent → Prop
  | .raft event => event.Spares replica.process.node index
  | .restore _ _ _ => False
  | .receive | .apply | .stop => True

theorem step_retains (kept : entry ∈ replica.process.node.log.entries)
    (ahead : replica.process.node.lastApplied < entry.index) (spares : replica.Spares entry.index event)
    (stepped : replica.step codec event = some after) : entry ∈ after.process.node.log.entries := by
  obtain ⟨_, ⟨_, same⟩ | ⟨own, observations, asks, ran⟩⟩ := step_some stepped
  · exact same ▸ kept
  · cases event with
    | raft event =>
        cases asks
        exact Process.step_ensures ran (replica.process.effect_retains kept ahead spares)
    | restore install lockOrder jobOrder => exact spares.elim
    | receive | apply | stop => cases asks

/-- Nothing new is handed over. -/
theorem Waits.carry (waits : replica.Waits committed entry) (handed : after.handedOver = replica.handedOver)
    (reached : entry.index ≤ after.consumer.applier.lastApplied →
      entry.index ≤ replica.consumer.applier.lastApplied ∧ after.consumer.applied = replica.consumer.applied ∨
        ∃ applied ∈ after.consumer.applied, entry.index ≤ applied.index)
    (opened : replica.Open entry → after.process.node.lastApplied < entry.index ∧
      (∀ index ∈ after.process.applying.index, index < entry.index) ∧ entry ∈ after.process.node.log.entries)
    (taken : entry.index ≤ replica.process.node.lastApplied ∨
      replica.process.applying.index = some entry.index →
        entry.index ≤ after.process.node.lastApplied ∨ after.process.applying.index = some entry.index) :
    after.Waits committed entry where
  reached below := by
    rcases reached below with ⟨before, same⟩ | now
    · exact same ▸ waits.reached before
    · exact now
  place := by
    have since : after.since entry.index = replica.since entry.index := by rw [Replica.since, handed, Replica.since]
    rcases waits.place with waiting | done
    · obtain ⟨ahead, working, kept⟩ := opened waiting
      exact Or.inl ⟨ahead, working, since.trans waiting.unseen, kept⟩
    · exact Or.inr ⟨done.member, taken done.reached, since ▸ done.once⟩

theorem Waits.pick (waits : replica.Waits committed entry) {next : LogEntry}
    (consumer : after.consumer = replica.consumer) (idle : replica.process.applying = .idle)
    (found : replica.process.node.nextCommitted = some next) (member : next ∈ committed)
    (node : after.process.node = replica.process.node)
    (applying : after.process.applying = .picked (replica.process.node.lastApplied + 1) next) :
    after.Waits committed entry where
  reached := consumer ▸ waits.reached
  place := by
    obtain ⟨looked, index⟩ := RaftNode.nextCommitted_index found
    have since : after.since entry.index = replica.since entry.index ++ [next].filter (entry.index ≤ ·.index) := by
      simp [Replica.since, handedOver, consumer, idle, applying, ApplyStage.entry]
    rcases waits.place with waiting | done
    · have ahead := waiting.ahead
      rcases Nat.lt_or_ge (replica.process.node.lastApplied + 1) entry.index with before | now
      · refine Or.inl ⟨node ▸ ahead, fun working held => ?_, ?_, node ▸ waiting.kept⟩
        · rw [applying, ApplyStage.index, Option.mem_some_iff] at held
          omega
        · rw [since, waiting.unseen, List.filter_cons_of_neg (by simp [index, before])]
          rfl
      · have same : entry.index = replica.process.node.lastApplied + 1 := by omega
        obtain rfl : entry = next := by
          rw [← same, Log.get_of_mem waiting.kept] at looked
          exact Option.some.inj looked
        refine Or.inr ⟨member, Or.inr ?_, [], ?_, fun _ none => nomatch none⟩
        · rw [applying, same]
          rfl
        · rw [since, waiting.unseen, List.filter_cons_of_pos (by simp)]
          rfl
    · have reached : entry.index ≤ replica.process.node.lastApplied :=
        done.reached.resolve_right (by simp [idle, ApplyStage.index])
      obtain ⟨later, handed, above⟩ := done.once
      refine Or.inr ⟨done.member, Or.inl (node ▸ reached), later ++ [next], ?_, fun other inside => ?_⟩
      · rw [since, handed, List.filter_cons_of_pos (by simp [index]; omega)]
        rfl
      · rcases List.mem_append.mp inside with earlier | now
        · exact above other earlier
        · rw [List.mem_singleton.mp now, index]
          omega

theorem Waits.step (waits : replica.Waits committed entry) (command : ¬ isConfigurationEntry entry.data)
    (picks : replica.Picks committed event) (spares : replica.Spares entry.index event)
    (stepped : replica.step codec event = some after) : after.Waits committed entry := by
  have kept : replica.Open entry → entry ∈ after.process.node.log.entries := fun waiting =>
    step_retains waiting.kept waiting.ahead spares stepped
  cases step_moves stepped with
  | quiet consumer applied applying restored =>
      refine waits.carry (by rw [handedOver, consumer, applying, handedOver]) (fun below => ?_)
        (fun waiting => ?_) ?_
      · rw [consumer] at below ⊢
        exact Or.inl ⟨below, rfl⟩
      · rw [applied, applying]
        exact ⟨waiting.ahead, waiting.working, kept waiting⟩
      · rw [applied, applying]
        exact id
  | pick consumer idle next command node applying restored =>
      exact waits.pick consumer idle next (picks _ next) node applying
  | configure consumer idle next configuration applied applying restored =>
      obtain ⟨looked, index⟩ := RaftNode.nextCommitted_index next
      refine waits.carry (by rw [handedOver, consumer, applying, handedOver, idle]) (fun below => ?_)
        (fun waiting => ?_)
        fun reached => ?_
      · rw [consumer] at below ⊢
        exact Or.inl ⟨below, rfl⟩
      · have ahead := waiting.ahead
        have different : entry.index ≠ replica.process.node.lastApplied + 1 := by
          intro same
          rw [← same, Log.get_of_mem waiting.kept] at looked
          exact command (Option.some.inj looked ▸ configuration)
        rw [applied, applying]
        exact ⟨by omega, by simp [ApplyStage.index], kept waiting⟩
      · simp only [idle, ApplyStage.index, reduceCtorEq, or_false] at reached
        omega
  | send picked same =>
      subst same
      refine waits.carry (by simp [handedOver, Consumer.pending, picked, ApplyStage.entry])
        (fun below => Or.inl ⟨below, rfl⟩) (fun waiting => ⟨waiting.ahead, ?_, waiting.kept⟩) fun reached => ?_
      · have working := waiting.working
        rw [picked] at working
        exact working
      · rw [picked] at reached
        exact reached
  | @mark index sent same =>
      subst same
      refine waits.carry (by simp [handedOver, sent, ApplyStage.entry]) (fun below => Or.inl ⟨below, rfl⟩)
        (fun waiting => ⟨?_, by simp [ApplyStage.index], waiting.kept⟩) fun reached => ?_
      · have working := waiting.working index (by simp [sent, ApplyStage.index])
        have ahead := waiting.ahead
        rw [RaftNode.markApplied_lastApplied]
        omega
      · rw [RaftNode.markApplied_lastApplied]
        simp only [sent, ApplyStage.index, Option.some.injEq] at reached
        omega
  | finish pending consumer finished applying restored kept => exact spares.elim
  | restore restores consumer node applying restored kept done => exact spares.elim
  | receive running free queued same =>
      subst same
      exact waits.carry (by simp [handedOver, Consumer.pending, free, queued]) (fun below => Or.inl ⟨below, rfl⟩)
        (fun waiting => ⟨waiting.ahead, waiting.working, waiting.kept⟩) id
  | @apply next received same =>
      subst same
      refine waits.carry (by simp [handedOver, Consumer.pending, received]) (fun below => Or.inr ?_)
        (fun waiting => ⟨waiting.ahead, waiting.working, waiting.kept⟩) id
      rw [Applier.applyEntry_lastApplied] at below
      rcases le_max_iff.mp below with before | now
      · obtain ⟨other, applied, above⟩ := waits.reached before
        exact ⟨other, List.mem_append_left _ applied, above⟩
      · exact ⟨next, by simp, now⟩
  | stop same =>
      subst same
      exact waits.carry rfl (fun below => Or.inl ⟨below, rfl⟩)
        (fun waiting => ⟨waiting.ahead, waiting.working, waiting.kept⟩) id

/-- An index that is applied is the one of the entry that waits, and no other had it. -/
theorem Waits.applied_once (waits : replica.Waits committed entry)
    (below : entry.index ≤ replica.consumer.applier.lastApplied) :
    entry ∈ committed ∧ replica.consumer.applied.filter (·.index = entry.index) = [entry] := by
  obtain ⟨applied, member, above⟩ := waits.reached below
  have first : applied ∈ replica.consumer.applied.filter (entry.index ≤ ·.index) :=
    List.mem_filter.mpr ⟨member, decide_eq_true above⟩
  have since : replica.since entry.index = replica.consumer.applied.filter (entry.index ≤ ·.index) ++
      (replica.consumer.pending ++ replica.process.applying.entry.toList).filter (entry.index ≤ ·.index) := by
    rw [Replica.since, handedOver, List.append_assoc, List.filter_append]
  rcases waits.place with waiting | done
  · rw [waiting.unseen] at since
    simp [(List.append_eq_nil_iff.mp since.symm).1] at first
  · obtain ⟨later, handed, behind⟩ := done.once
    rw [handed] at since
    cases shape : replica.consumer.applied.filter (entry.index ≤ ·.index) with
    | nil => simp [shape] at first
    | cons head rest =>
        rw [shape, List.cons_append] at since
        obtain ⟨rfl, following⟩ := List.cons.inj since
        refine ⟨done.member, ?_⟩
        have inside : replica.consumer.applied.filter (·.index = entry.index) =
            (replica.consumer.applied.filter (entry.index ≤ ·.index)).filter (·.index = entry.index) := by
          rw [List.filter_filter]
          refine List.filter_congr fun other _ => ?_
          by_cases same : other.index = entry.index
          · simp [same]
          · simp [same]
        rw [inside, shape, List.filter_cons_of_pos (by simp)]
        refine congrArg _ (List.filter_eq_nil_iff.mpr fun other kept => ?_)
        have strictly := behind other (following ▸ List.mem_append_left _ kept)
        simp only [decide_eq_true_eq]
        omega

/-- Neither the node nor its store is ahead of the log. -/
structure Within (replica : Replica) : Prop where
  store : replica.consumer.reach ≤ replica.process.node.log.lastIndex
  applied : replica.process.node.lastApplied ≤ replica.process.node.log.lastIndex
  working : ∀ index ∈ replica.process.applying.index, index ≤ replica.process.node.log.lastIndex

/-- An entry that has just been proposed is still ahead. -/
theorem Within.waits (within : replica.Within) (applies : replica.Applies codec committed) {data : Bytes}
    {fault : Fault} {index : ℕ}
    (proposed : replica.process.node.propose data fault = .done after.process.node (.ok index))
    (stepped : replica.step codec (.raft (.propose data fault)) = some after) :
    after.Waits committed ⟨index, replica.process.node.persistent.currentTerm, data⟩ := by
  have ensures := replica.process.node.propose_applies fault data
  rw [proposed] at ensures
  obtain ⟨_, _, rfl, appended⟩ := ensures
  cases step_moves stepped with
  | quiet consumer applied applying restored =>
      have store := within.store
      have low := replica.consumer.lastApplied_le_reach
      have unseen : ∀ entry ∈ replica.handedOver, entry.index ≤ replica.process.node.log.lastIndex := by
        intro entry member
        rw [handedOver, List.mem_append, List.mem_append] at member
        rcases member with (before | pending) | now
        · exact ((applies.applied entry before).trans low).trans store
        · exact (Consumer.le_reach pending).trans store
        · cases held : replica.process.applying with
          | picked index other =>
              simp only [held, ApplyStage.entry, Option.toList_some, List.mem_singleton] at now
              rw [now, applies.picked index other held]
              exact within.working index (by simp [held, ApplyStage.index])
          | idle | sent index => simp [held, ApplyStage.entry] at now
      refine ⟨fun below => ?_, Or.inl ⟨?_, fun index working => ?_, ?_, ?_⟩⟩
      · rw [consumer] at below
        dsimp only at below
        omega
      · have behind := within.applied
        dsimp only
        omega
      · have behind := within.working index (applying ▸ working)
        dsimp only
        omega
      · rw [since, handedOver, consumer, applying, ← handedOver, List.filter_eq_nil_iff]
        intro entry member
        have behind := unseen entry member
        simp only [decide_eq_true_eq]
        omega
      · rcases replica.process.node.log.append_cases
          ⟨_, replica.process.node.persistent.currentTerm, data⟩ with ⟨grown, now, _, entries, _⟩ | ⟨_, refused⟩
        · cases now.symm.trans appended
          rw [entries]
          exact List.mem_append_right _ List.mem_cons_self
        · cases refused.symm.trans appended

end Replica

namespace Service

/-- What a node applies has been committed by a leader.  While a call waits on a node, no leader contradicts the
node's log up to the call's index and no snapshot is restored or installed there; and a call is made when
neither the node nor its store is ahead of the log. -/
def Undisturbed (service : Service) : ServiceAction → Prop
  | .server v event => ∀ replica, service.replica v = some replica →
      replica.Picks service.world.committedEntries event ∧
        ∀ call ∈ service.calls, call.node = v → replica.Spares call.index event
  | .call v _ _ => ∀ replica, service.replica v = some replica → replica.Within
  | .crash _ | .restart _ _ _ _ | .answer _ | .cancel _ => True

structure Sound (codec : Codec) (committed : List LogEntry) (service : Service) : Prop where
  placed : service.Placed
  applies : ∀ v replica, service.replica v = some replica → replica.Applies codec committed
  proposed : ∀ call ∈ service.calls, call.entry.index = call.index ∧
    call.entry.data = codec.encodeCommand call.request.command
  waits : ∀ call ∈ service.calls, ∀ replica, service.replica call.node = some replica →
    replica.Waits committed call.entry

variable {cluster : Cluster} {codec : Codec} {committed more : List LogEntry} {service after : Service}
  {action : ServiceAction}

theorem Sound.mono (sound : service.Sound codec committed) (subset : committed ⊆ more) :
    service.Sound codec more where
  placed := sound.placed
  applies v replica up := (sound.applies v replica up).mono subset
  proposed := sound.proposed
  waits call member replica up := (sound.waits call member replica up).mono subset

theorem initial_sound (cluster : Cluster) (codec : Codec) (committed : List LogEntry) :
    (initial cluster).Sound codec committed where
  placed _ member := nomatch member
  applies v replica up := by
    obtain ⟨host, consumer⟩ := replica_some.mp up
    refine .fresh ?_ (by rw [← consumer]; rfl) (by simp [← consumer, initial, Consumer.new, Applier.new])
    simp only [initial, Cluster.initial] at host
    split at host
    · cases host
    · rename_i process booted
      obtain ⟨log, _, started⟩ := Cluster.boot_ok booted
      rw [← Host.up.inj host, started]
      rfl
  proposed _ member := nomatch member
  waits _ member := nomatch member

/-- The condition, for every section that an action consists of. -/
theorem Undisturbed.event {v : NodeID} {event : ServerEvent} {before : Replica}
    (undisturbed : service.Undisturbed action) (taken : action.eventAt codec v = some event)
    (up : service.replica v = some before) :
    before.Picks service.world.committedEntries event ∧ ∀ call ∈ service.calls, call.node = v → before.Spares call.index event := by
  cases action with
  | server w other =>
      simp only [ServiceAction.eventAt] at taken
      split at taken
      · rename_i same
        subst same
        cases taken
        exact undisturbed before up
      · cases taken
  | call w request fault =>
      simp only [ServiceAction.eventAt] at taken
      split at taken
      · cases taken
        exact ⟨trivial, fun _ _ _ => trivial⟩
      · cases taken
  | crash w | restart w keep lockOrder jobOrder | answer call | cancel call => cases taken

theorem Sound.step (sound : service.Sound codec service.world.committedEntries)
    (undisturbed : service.Undisturbed action) (stepped : step cluster codec service action = some after) :
    after.Sound codec service.world.committedEntries where
  placed call member := by
    obtain ⟨next, up, _⟩ := step_calls sound.placed stepped member
    exact Option.isSome_iff_exists.mpr ⟨next, up⟩
  applies v replica up := by
    cases step_evolves stepped up with
    | same before => exact sound.applies v replica before
    | acted event before running taken ran =>
        exact (sound.applies v before running).step (undisturbed.event taken running).1 ran
    | answered call before running node answers => exact answers ▸ (sound.applies v before running).answered _ _
    | started down idle consumer results => exact .fresh idle consumer results
  proposed call member := by
    obtain ⟨next, _, earlier | ⟨before, begins⟩⟩ := step_calls sound.placed stepped member
    · exact sound.proposed call earlier
    · rw [begins.entry]
      exact ⟨rfl, rfl⟩
  waits call member replica up := by
    obtain ⟨next, now, earlier | ⟨before, begins⟩⟩ := step_calls sound.placed stepped member
    · obtain ⟨index, data⟩ := sound.proposed call earlier
      have command : ¬ isConfigurationEntry call.entry.data := data ▸ codec.plain call.request.command
      cases step_evolves stepped up with
      | same before => exact sound.waits call earlier replica before
      | acted event before running taken ran =>
          obtain ⟨picks, spares⟩ := undisturbed.event taken running
          exact (sound.waits call earlier before running).step command picks (index ▸ spares call earlier rfl) ran
      | answered other before running node answers =>
          subst answers
          have waits := sound.waits call earlier before running
          have same := (other.request.answer_applier before.consumer.applier other.index).1
          exact waits.carry rfl (fun below => Or.inl ⟨same ▸ below, rfl⟩)
            (fun waiting => ⟨waiting.ahead, waiting.working, waiting.kept⟩) id
      | started down idle consumer results =>
          have placed := sound.placed call earlier
          simp [down] at placed
    · cases now.symm.trans up
      obtain ⟨fault, rfl, ran, proposed⟩ := begins.event
      rw [begins.entry]
      exact (undisturbed before begins.up).waits (sound.applies _ before begins.up) proposed ran

/-- The condition, evaluated. -/
def checksSpares (replica : Replica) (index : ℕ) : ServerEvent → Bool
  | .raft (.receiveAppendEntries args _ _ _) => args.entries.all fun entry =>
      index < entry.index ∨ (replica.process.node.log.get entry.index).all (·.term = entry.term)
  | .raft (.finishInstall _ _) | .restore _ _ _ => false
  | _ => true

theorem checksSpares_sound {replica : Replica} {index : ℕ} {event : ServerEvent}
    (checked : checksSpares replica index event) : replica.Spares index event := by
  cases event with
  | raft event =>
      cases event with
      | receiveAppendEntries args purpose termFault logFault =>
          intro entry member below held found
          have agrees := of_decide_eq_true (List.all_eq_true.mp checked entry member)
          have same := (Option.all_eq_true _ _).mp (agrees.resolve_left (not_lt.mpr below)) held found
          exact of_decide_eq_true same
      | finishInstall install fault => cases checked
      | _ => trivial
  | restore install lockOrder jobOrder => cases checked
  | receive | apply | stop => trivial

def checksCalls (service : Service) : ServiceAction → Bool
  | .server v event => (service.replica v).all fun replica =>
      Replica.checksPicks service.world.committedEntries replica event && service.calls.all fun call => call.node ≠ v ∨ checksSpares replica call.index event
  | .call v _ _ => (service.replica v).all fun replica =>
      let last := replica.process.node.log.lastIndex
      replica.consumer.reach ≤ last ∧ replica.process.node.lastApplied ≤ last ∧
        replica.process.applying.index.all (· ≤ last)
  | .crash _ | .restart _ _ _ _ | .answer _ | .cancel _ => true

theorem checksCalls_sound (service : Service) (action : ServiceAction) (checked : checksCalls service action) :
    service.Undisturbed action := by
  cases action with
  | server v event =>
      intro replica up
      have holds := (Option.all_eq_true _ _).mp checked replica up
      obtain ⟨picks, spares⟩ := Bool.and_eq_true_iff.mp holds
      refine ⟨Replica.checksPicks_sound picks, fun call member node => ?_⟩
      have spared := of_decide_eq_true (List.all_eq_true.mp spares call member)
      exact checksSpares_sound (spared.resolve_left (not_not.mpr node))
  | call v request fault =>
      intro replica up
      have holds := of_decide_eq_true ((Option.all_eq_true _ _).mp checked replica up)
      obtain ⟨store, applied, working⟩ := holds
      exact ⟨store, applied, fun index held => of_decide_eq_true ((Option.all_eq_true _ _).mp working index held)⟩
  | crash v | restart v keep lockOrder jobOrder | answer call | cancel call => trivial

/-- A node is elected with the vote of another one. -/
def elects (candidate voter : NodeID) (term lastIndex lastTerm : ℕ) : List ServiceAction :=
  let args : RequestVoteArgs := ⟨term, candidate, lastIndex, lastTerm⟩
  [.server candidate (.raft (.startElection .none)), .server candidate (.raft .requestVotes),
    .server voter (.raft (.receiveRequestVote args .none .none)),
    .server candidate (.raft (.receiveVoteReply args ⟨term, voter, true⟩ .none)),
    .server candidate (.raft .tryBecomeLeader)]

/-- A leader sends entries to another node. -/
def sends (peer : NodeID) (args : AppendEntriesArgs) : List ServiceAction :=
  [.server args.leaderID (.raft (.replicateTo peer)),
    .server peer (.raft (.receiveAppendEntries args .replication .none .none))]

/-- The answer comes back. -/
def acknowledges (peer : NodeID) (args : AppendEntriesArgs) : List ServiceAction :=
  [.server args.leaderID (.raft (.receiveAppendReply peer args ⟨args.term, peer, true⟩ .none))]

/-- `A` applies the next entry. -/
def appliesNext : List ServiceAction :=
  [.server "A" (.raft (.pickCommitted .none .none)), .server "A" (.raft .sendApplied), .server "A" .receive,
    .server "A" .apply]

/-- A call of `A` is in progress and returns with success in this state. -/
def ReturnsOn (service : Service) (entry : LogEntry) (applied : List LogEntry) : Prop :=
  ⟨"A", .put "x" [1], 1, entry⟩ ∈ service.calls ∧
    (Request.answer (.put "x" [1]) (service.consumer "A").applier 1).2 = some (.ok none) ∧
    (service.consumer "A").applied = applied

instance (service : Service) (entry : LogEntry) (applied : List LogEntry) :
    Decidable (service.ReturnsOn entry applied) :=
  inferInstanceAs (Decidable (_ ∧ _ ∧ _))

end Service

end Raftiq
