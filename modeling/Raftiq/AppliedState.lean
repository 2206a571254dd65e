import Raftiq.Replica

namespace Raftiq

open Kv

/-- The commands that are committed at indexes above `low` and up to `high`. -/
def commandsBetween (committed : List LogEntry) (low high : ℕ) : List LogEntry :=
  committed.filter fun entry => low < entry.index ∧ entry.index ≤ high ∧ ¬ isConfigurationEntry entry.data

/-- The store after the committed commands up to an index. -/
def stateAt (codec : Codec) (committed : List LogEntry) (index : ℕ) : Store :=
  Store.new.run ((committed.filter fun entry =>
    entry.index ≤ index ∧ ¬ isConfigurationEntry entry.data).map codec.entry)

section Commands

variable {committed rest : List LogEntry} {entry : LogEntry} {low high : ℕ}

theorem mem_commandsBetween :
    entry ∈ commandsBetween committed low high ↔
      entry ∈ committed ∧ low < entry.index ∧ entry.index ≤ high ∧ ¬ isConfigurationEntry entry.data := by
  simp [commandsBetween]

theorem commandsBetween_empty (none : ∀ entry ∈ committed, ¬ isConfigurationEntry entry.data →
    low < entry.index → high < entry.index) : commandsBetween committed low high = [] := by
  refine List.eq_nil_iff_forall_not_mem.mpr fun entry member => ?_
  obtain ⟨member, above, below, command⟩ := mem_commandsBetween.mp member
  exact absurd below (not_le.mpr (none entry member command above))

theorem commandsBetween_skip {higher : ℕ} (raised : high ≤ higher)
    (none : ∀ entry ∈ committed, ¬ isConfigurationEntry entry.data → low < entry.index → high < entry.index →
      higher < entry.index) : commandsBetween committed low higher = commandsBetween committed low high := by
  refine List.filter_congr fun entry member => ?_
  rw [decide_eq_decide]
  refine and_congr_right fun above => and_congr_left fun command =>
    ⟨fun below => ?_, fun below => below.trans raised⟩
  by_contra beyond
  exact absurd below (not_le.mpr (none entry member command above (not_le.mp beyond)))

theorem commandsBetween_append {base middle : ℕ} (numbered : Numbered base committed) (first : low ≤ middle)
    (second : middle ≤ high) :
    commandsBetween committed low high =
      commandsBetween committed low middle ++ commandsBetween committed middle high := by
  induction committed generalizing base with
  | nil => rfl
  | cons entry rest ih =>
      rcases Nat.lt_or_ge middle entry.index with behind | within
      · have above : ∀ other ∈ entry :: rest, middle < other.index := by
          intro other member
          rcases List.mem_cons.mp member with rfl | later
          · exact behind
          · exact behind.trans (List.rel_of_pairwise_cons numbered.sorted later)
        rw [commandsBetween_empty fun other member _ _ => above other member, List.nil_append]
        refine List.filter_congr fun other member => ?_
        have past := above other member
        rw [decide_eq_decide]
        exact and_congr_left fun _ => ⟨fun _ => past, fun _ => first.trans_lt past⟩
      · have following := ih numbered.2
        have right : commandsBetween (entry :: rest) middle high = commandsBetween rest middle high :=
          List.filter_cons_of_neg (by simp [within])
        rw [right]
        by_cases taken : low < entry.index ∧ ¬ isConfigurationEntry entry.data
        · have takes : ∀ bound, middle ≤ bound →
              commandsBetween (entry :: rest) low bound = entry :: commandsBetween rest low bound :=
            fun bound reached => List.filter_cons_of_pos (by simpa [taken] using within.trans reached)
          rw [takes high second, takes middle le_rfl, following, List.cons_append]
        · have skips : ∀ bound, commandsBetween (entry :: rest) low bound = commandsBetween rest low bound :=
            fun bound => List.filter_cons_of_neg (by simp only [decide_eq_true_eq]; tauto)
          rw [skips, skips, following]

/-- The first command, alone and without it. -/
theorem commandsBetween_head {base : ℕ} (numbered : Numbered base committed)
    (commands : commandsBetween committed low high = entry :: rest) :
    commandsBetween committed low entry.index = [entry] ∧ commandsBetween committed entry.index high = rest := by
  obtain ⟨member, above, below, command⟩ := mem_commandsBetween.mp (commands ▸ List.mem_cons_self)
  have split := commandsBetween_append numbered above.le below
  have found : entry ∈ commandsBetween committed low entry.index :=
    mem_commandsBetween.mpr ⟨member, above, le_rfl, command⟩
  have sorted : (commandsBetween committed low entry.index).Pairwise
      fun earlier later => earlier.index < later.index := numbered.sorted.filter _
  cases shape : commandsBetween committed low entry.index with
  | nil => simp [shape] at found
  | cons first more =>
      rw [commands, shape, List.cons_append] at split
      obtain ⟨rfl, following⟩ := List.cons.inj split
      have alone : more = [] := by
        refine List.eq_nil_iff_forall_not_mem.mpr fun other later => ?_
        have inside : other ∈ commandsBetween committed low entry.index := shape ▸ List.mem_cons_of_mem _ later
        rw [shape] at sorted
        exact absurd (mem_commandsBetween.mp inside).2.2.1 (not_le.mpr (List.rel_of_pairwise_cons sorted later))
      subst alone
      exact ⟨rfl, following.symm⟩

/-- The next command comes behind the others. -/
theorem commandsBetween_snoc (numbered : Numbered 0 committed) (member : entry ∈ committed)
    (command : ¬ isConfigurationEntry entry.data) (index : entry.index = high + 1) (reached : low ≤ high) :
    commandsBetween committed low (high + 1) = commandsBetween committed low high ++ [entry] := by
  rw [commandsBetween_append numbered reached (Nat.le_succ high)]
  have found : entry ∈ commandsBetween committed high (high + 1) :=
    mem_commandsBetween.mpr ⟨member, by omega, index.le, command⟩
  cases shape : commandsBetween committed high (high + 1) with
  | nil => simp [shape] at found
  | cons first more =>
      obtain ⟨memberToo, above, below, _⟩ := mem_commandsBetween.mp (shape ▸ List.mem_cons_self)
      obtain rfl : first = entry := numbered.eq_of_index memberToo member (by omega)
      rw [← shape, ← index, (commandsBetween_head numbered shape).1]

theorem stateAt_eq {codec : Codec} (numbered : Numbered 0 committed) (index : ℕ) :
    stateAt codec committed index = Store.new.run ((commandsBetween committed 0 index).map codec.entry) := by
  have same : (committed.filter fun entry => entry.index ≤ index ∧ ¬ isConfigurationEntry entry.data) =
      commandsBetween committed 0 index := by
    refine List.filter_congr fun entry member => ?_
    rw [decide_eq_decide]
    exact ⟨fun counts => ⟨(numbered.mem_index member).1, counts⟩, fun counts => counts.2⟩
  rw [stateAt, same]

/-- The first command leads from the state before it to the one at its index. -/
theorem stateAt_head {codec : Codec} (numbered : Numbered 0 committed)
    (commands : commandsBetween committed low high = entry :: rest) :
    stateAt codec committed entry.index = ((stateAt codec committed low).apply (codec.entry entry)).1 := by
  have above := (mem_commandsBetween.mp (commands ▸ List.mem_cons_self)).2.1
  rw [stateAt_eq numbered, stateAt_eq numbered, commandsBetween_append numbered (Nat.zero_le low) above.le,
    (commandsBetween_head numbered commands).1, List.map_append, Store.run_append]
  rfl

end Commands

/-- The last index whose entry the node has applied or handed over. -/
def Process.handed (process : Process) : ℕ :=
  match process.applying with
  | .sent index => max process.node.lastApplied index
  | .idle | .picked _ _ => process.node.lastApplied

/-- What an installed snapshot adds to it. -/
theorem Process.handed_raised {process after : Process} {bound : ℕ} (applying : after.applying = process.applying)
    (raised : after.node.lastApplied = process.node.lastApplied ∨
      after.node.lastApplied = max process.node.lastApplied bound) :
    process.handed ≤ after.handed ∧ after.handed ≤ max process.handed bound := by
  unfold Process.handed
  rw [applying]
  split
  · omega
  · omega
  · omega

/-- A snapshot is the state after the committed commands up to its index, in a form that can be read. -/
structure Snapshot.Genuine (codec : Codec) (committed : List LogEntry) (snapshot : Snapshot) : Prop where
  data : snapshot.data = (stateAt codec committed snapshot.lastIncludedIndex).snapshot codec.store
  readable : codec.store.RoundTrips (stateAt codec committed snapshot.lastIncludedIndex).snapshotState

theorem Snapshot.Genuine.restore {codec : Codec} {committed : List LogEntry} {snapshot : Snapshot}
    {store after : Store} {lockOrder jobOrder : List String} (genuine : snapshot.Genuine codec committed)
    (restored : store.restore codec.store snapshot.data lockOrder jobOrder = (after, .ok ())) :
    after = stateAt codec committed snapshot.lastIncludedIndex := by
  rw [genuine.data, restore_snapshot genuine.readable] at restored
  split at restored
  · cases restored
  · cases restored
    rfl

namespace Replica

/-- The snapshots that a node restores are genuine. -/
def RestoresGenuine (codec : Codec) (committed : List LogEntry) : ServerEvent → Prop
  | .restore install _ _ => install.args.snapshot.Genuine codec committed
  | .raft _ | .receive | .apply | .stop => True

/-- The setting: what a node applies is committed, and the snapshots it restores are genuine. -/
def OfCommitted (codec : Codec) (committed : List LogEntry) (replica : Replica) (event : ServerEvent) : Prop :=
  replica.Picks committed event ∧ RestoresGenuine codec committed event

/-- A command is taken only when the store is not ahead of the node.  A snapshot is restored only when no
command is on its way to the store, and it is not older than what the node and the store have. -/
def InOrder (replica : Replica) : ServerEvent → Prop
  | .raft (.pickCommitted _ _) => ∀ entry ∈ replica.process.node.nextCommitted,
      isConfigurationEntry entry.data ∨ replica.consumer.applier.lastApplied ≤ replica.process.node.lastApplied
  | .restore install _ _ =>
      replica.consumer.pending = [] ∧ replica.process.applying.entry = none ∧
        replica.process.handed ≤ install.args.lastIncludedIndex ∧
        replica.consumer.applier.lastApplied ≤ install.args.lastIncludedIndex
  | _ => True

/-- The store is at its index, and the commands between it and the node are on their way. -/
structure Follows (codec : Codec) (committed : List LogEntry) (replica : Replica) : Prop where
  store : replica.consumer.applier.store = stateAt codec committed replica.consumer.applier.lastApplied
  pending : replica.consumer.pending =
    commandsBetween committed replica.consumer.applier.lastApplied replica.process.handed
  picked : ∀ index entry, replica.process.applying = .picked index entry →
    entry ∈ committed ∧ ¬ isConfigurationEntry entry.data ∧ index = replica.process.node.lastApplied + 1 ∧
      entry.index = index ∧ replica.consumer.applier.lastApplied ≤ replica.process.node.lastApplied
  restored : ∀ install, replica.process.RestoredInstall install →
    install.args.lastIncludedIndex ≤ replica.consumer.applier.lastApplied

variable {codec : Codec} {committed : List LogEntry} {replica after : Replica} {event : ServerEvent}

/-- A section of the node that leaves the channel and the applier alone. -/
theorem Follows.of_node (follows : replica.Follows codec committed) (consumer : after.consumer = replica.consumer)
    (handed : commandsBetween committed replica.consumer.applier.lastApplied after.process.handed =
      commandsBetween committed replica.consumer.applier.lastApplied replica.process.handed)
    (picked : ∀ index entry, after.process.applying = .picked index entry →
      entry ∈ committed ∧ ¬ isConfigurationEntry entry.data ∧ index = after.process.node.lastApplied + 1 ∧
        entry.index = index ∧ replica.consumer.applier.lastApplied ≤ after.process.node.lastApplied)
    (restored : ∀ install, after.process.RestoredInstall install → replica.process.RestoredInstall install) :
    after.Follows codec committed where
  store := consumer ▸ follows.store
  pending := by
    rw [consumer, handed]
    exact follows.pending
  picked := consumer ▸ picked
  restored install pending := consumer ▸ follows.restored install (restored install pending)

/-- A genuine snapshot is restored when nothing is on its way. -/
theorem Follows.restore {install : PendingInstall} {lockOrder jobOrder : List String} {applier : Applier}
    (follows : replica.Follows codec committed) (genuine : install.args.snapshot.Genuine codec committed)
    (ordered : replica.InOrder (.restore install lockOrder jobOrder))
    (restores : replica.consumer.applier.restoreSnapshot codec install.args.snapshot lockOrder jobOrder =
      some applier)
    (consumer : after.consumer = { replica.consumer with applier := applier, applied := [] })
    (node : after.process.node = replica.process.node)
    (applying : after.process.applying = replica.process.applying)
    (restored : ∀ other, after.process.RestoredInstall other →
      replica.process.RestoredInstall other ∨ other = { install with restored := true }) :
    after.Follows codec committed := by
  obtain ⟨empty, unpicked, handed, forward⟩ := ordered
  obtain ⟨last, _, _, store⟩ := Applier.restoreSnapshot_some restores
  have index : after.consumer.applier.lastApplied = install.args.lastIncludedIndex := by
    rw [consumer]
    exact last
  exact {
    store := by
      rw [index, consumer]
      exact Snapshot.Genuine.restore genuine store
    pending := by
      have same : after.process.handed = replica.process.handed := by
        simp only [Process.handed, node, applying]
      rw [commandsBetween_empty fun other _ _ above => by omega, consumer]
      exact empty
    picked := fun index entry picked => by simp [← applying, picked, ApplyStage.entry] at unpicked
    restored := fun other pending => by
      rw [index]
      rcases restored other pending with before | rfl
      · exact (follows.restored other before).trans forward
      · exact le_rfl }

/-- The first command on its way reaches the store. -/
theorem Follows.apply {entry : LogEntry} (numbered : Numbered 0 committed)
    (follows : replica.Follows codec committed) (received : replica.consumer.received = some entry) :
    Follows codec committed { replica with consumer := { replica.consumer with
      received := none
      applier := (replica.consumer.applier.applyEntry codec entry).1
      running := (replica.consumer.applier.applyEntry codec entry).2
      applied := replica.consumer.applied ++ [entry] } } := by
  have commands : commandsBetween committed replica.consumer.applier.lastApplied replica.process.handed =
      entry :: replica.consumer.applyCh := by
    rw [← follows.pending, Consumer.pending, received]
    rfl
  obtain ⟨_, above, below, _⟩ := mem_commandsBetween.mp (commands ▸ List.mem_cons_self)
  have last : max replica.consumer.applier.lastApplied entry.index = entry.index := by omega
  exact {
    store := by
      rw [Applier.applyEntry_store, Applier.applyEntry_lastApplied, last, stateAt_head numbered commands,
        follows.store]
    pending := by
      rw [Applier.applyEntry_lastApplied, last, (commandsBetween_head numbered commands).2]
      rfl
    picked := fun index other picked => by
      have unsent : replica.process.applying = .picked index other := picked
      obtain ⟨member, command, position, next, _⟩ := follows.picked index other unsent
      rw [Process.handed, unsent] at below
      rw [Applier.applyEntry_lastApplied, last]
      exact ⟨member, command, position, next, below⟩
    restored := fun install pending => by
      rw [Applier.applyEntry_lastApplied]
      exact (follows.restored install pending).trans (le_max_left _ _) }

theorem Follows.step (numbered : Numbered 0 committed) (follows : replica.Follows codec committed)
    (setting : replica.OfCommitted codec committed event) (ordered : replica.InOrder event)
    (stepped : replica.step codec event = some after) : after.Follows codec committed := by
  cases step_moves stepped with
  | quiet consumer applied applying restored =>
      have handed : after.process.handed = replica.process.handed := by
        simp only [Process.handed, applied, applying]
      refine follows.of_node consumer (by rw [handed]) (fun index entry picked => ?_)
        fun install => (restored install).mp
      rw [applied]
      exact follows.picked index entry (applying ▸ picked)
  | pick consumer idle next command node applying restored =>
      have handed : after.process.handed = replica.process.handed := by
        simp only [Process.handed, applying, idle, node]
      refine follows.of_node consumer (by rw [handed]) (fun index entry picked => ?_)
        fun install => (restored install).mp
      cases applying.symm.trans picked
      rw [node]
      exact ⟨setting.1 _ next, command, rfl, (RaftNode.nextCommitted_index next).2,
        (ordered _ next).resolve_left command⟩
  | @configure _ _ entry consumer idle next configuration applied applying restored =>
      refine follows.of_node consumer ?_ (fun index entry picked => nomatch applying.symm.trans picked)
        fun install => (restored install).mp
      have member := setting.1 _ next
      have index := (RaftNode.nextCommitted_index next).2
      simp only [Process.handed, applying, idle, applied]
      refine commandsBetween_skip (Nat.le_succ _) fun other otherMember command _ above => ?_
      have different : other.index ≠ entry.index := fun same =>
        command (numbered.eq_of_index otherMember member same ▸ configuration)
      omega
  | @send index entry picked same =>
      subst same
      obtain ⟨member, command, rfl, last, level⟩ := follows.picked _ _ picked
      have before := follows.pending
      simp only [Process.handed, picked] at before
      exact {
        store := follows.store
        pending := by
          simp only [Process.handed, Nat.max_eq_right (Nat.le_succ _)]
          rw [commandsBetween_snoc numbered member command last level, ← before]
          exact (List.append_assoc _ _ _).symm
        picked := fun _ _ sent => nomatch sent
        restored := follows.restored }
  | @mark index sent same =>
      subst same
      refine follows.of_node rfl ?_ (fun _ _ picked => nomatch picked) fun _ => id
      simp only [Process.handed, sent, RaftNode.markApplied_lastApplied]
  | @finish install fault reply pending consumer finished applying restored kept =>
      have below := follows.restored install pending
      have raises := replica.process.node.finishInstall_raises install fault
      rw [finished] at raises
      have applied : after.process.node.lastApplied = replica.process.node.lastApplied ∨
          after.process.node.lastApplied = max replica.process.node.lastApplied install.args.lastIncludedIndex := by
        rw [raises.2]
        split
        · exact Or.inr rfl
        · exact Or.inl rfl
      obtain ⟨raised, bounded⟩ := Process.handed_raised applying applied
      refine follows.of_node consumer ?_ (fun index entry picked => ?_) restored
      · exact commandsBetween_skip raised fun other _ _ above beyond => by omega
      · obtain ⟨member, command, position, last, level⟩ := follows.picked index entry (applying ▸ picked)
        have same : after.process.node.lastApplied = replica.process.node.lastApplied := by omega
        rw [same]
        exact ⟨member, command, position, last, level⟩
  | restore restores consumer node applying restored kept done =>
      exact follows.restore setting.2 ordered restores consumer node applying restored
  | @receive entry rest running free queued same =>
      subst same
      have before := follows.pending
      simp only [Consumer.pending, free, queued] at before
      exact { follows with pending := before }
  | apply received same => exact same ▸ follows.apply numbered received
  | stop same =>
      subst same
      exact { follows with }

theorem Starts.follows (numbered : Numbered 0 committed) (starts : replica.Starts codec)
    (genuine : 0 < replica.process.node.storage.contents.loadSnapshot.lastIncludedIndex →
      replica.process.node.storage.contents.loadSnapshot.Genuine codec committed) :
    replica.Follows codec committed := by
  obtain ⟨snapshot, lockOrder, jobOrder, same, began, applied, idle, installs⟩ := starts.fresh
  rw [same] at genuine
  obtain ⟨fresh, last, _, _, store⟩ := Consumer.start_some began
  have handed : replica.process.handed = replica.consumer.applier.lastApplied := by
    rw [Process.handed, idle, last, applied]
  exact {
    store := by
      rw [last]
      rcases store with ⟨zero, store⟩ | ⟨positive, restored⟩
      · rw [store, zero, stateAt_eq numbered, commandsBetween_empty fun _ _ _ above => above]
        rfl
      · exact (genuine positive).restore restored
    pending := by
      rw [handed, commandsBetween_empty fun _ _ _ above => above, fresh]
      rfl
    picked := fun _ _ picked => nomatch idle.symm.trans picked
    restored := fun _ restored => by simp [Process.RestoredInstall, installs] at restored }

/-- The store is the state after the committed commands up to the applier's index, in every run that starts
from a genuine snapshot or none and restores genuine snapshots only when nothing can overtake them. -/
theorem store_is_committed_state (numbered : Numbered 0 committed) {first : Replica} (starts : first.Starts codec)
    (genuine : 0 < first.process.node.storage.contents.loadSnapshot.lastIncludedIndex →
      first.process.node.storage.contents.loadSnapshot.Genuine codec committed)
    (reached : Reaches (step codec) (fun replica event => replica.OfCommitted codec committed event ∧
      replica.InOrder event) first replica) :
    replica.consumer.applier.store = stateAt codec committed replica.consumer.applier.lastApplied := by
  have follows : replica.Follows codec committed :=
    reached.invariant (Follows codec committed) (starts.follows numbered genuine)
      fun before event after follows allowed stepped => follows.step numbered allowed.1 allowed.2 stepped
  exact follows.store

/-- Three commands of term 1, and the state after the second of them. -/
def threeWrites : List LogEntry := [⟨1, 1, [0x7b, 1]⟩, ⟨2, 1, [0x7b, 2]⟩, ⟨3, 1, [0x7b, 3]⟩]

def secondState : InstallSnapshotArgs := ⟨1, "B", 2, 1, [2]⟩

theorem secondState_genuine : secondState.snapshot.Genuine .register threeWrites where
  data := by decide +kernel
  readable := ⟨rfl, congrArg Except.ok (by decide +kernel)⟩

/-- `A` gets entries from `B`. -/
def appends (entries : List LogEntry) (prevLogIndex : ℕ) : ServerEvent :=
  .raft (.receiveAppendEntries ⟨1, "B", prevLogIndex, min 1 prevLogIndex, entries, prevLogIndex + entries.length⟩
    .replication .none .none)

/-- `applyCommitted` hands a command over. -/
def hands : List ServerEvent :=
  [.raft (.pickCommitted .none .none), .raft .sendApplied, .raft .markApplied]

/-- `A` installs the state after the second command. -/
def installsSecond : List ServerEvent :=
  [.raft (.receiveInstallSnapshot secondState .none .none), .restore ⟨secondState, 1, false⟩ [] [],
    .raft (.finishInstall ⟨secondState, 1, true⟩ .none)]

/-- The setting and the condition, evaluated. -/
def checksCommitted (replica : Replica) (event : ServerEvent) : Bool :=
  checksPicks threeWrites replica event &&
    match event with
    | .restore install _ _ => install.args = secondState
    | .raft _ | .receive | .apply | .stop => true

theorem checksCommitted_sound (replica : Replica) (event : ServerEvent) (checked : checksCommitted replica event) :
    replica.OfCommitted .register threeWrites event := by
  obtain ⟨picks, genuine⟩ := Bool.and_eq_true_iff.mp checked
  refine ⟨checksPicks_sound picks, ?_⟩
  cases event with
  | restore install lockOrder jobOrder =>
      rw [RestoresGenuine, of_decide_eq_true genuine]
      exact secondState_genuine
  | raft event | receive | apply | stop => trivial

def checksOrder (replica : Replica) : ServerEvent → Bool
  | .raft (.pickCommitted _ _) => replica.consumer.applier.lastApplied ≤ replica.process.node.lastApplied
  | .restore install _ _ =>
      replica.consumer.pending = [] ∧ replica.process.applying.entry = none ∧
        replica.process.handed ≤ install.args.lastIncludedIndex ∧
        replica.consumer.applier.lastApplied ≤ install.args.lastIncludedIndex
  | _ => true

theorem checksOrder_sound (replica : Replica) (event : ServerEvent) (checked : checksOrder replica event) :
    replica.InOrder event := by
  cases event with
  | raft event =>
      cases event with
      | pickCommitted stateFault leaveFault => exact fun _ _ => Or.inr (of_decide_eq_true checked)
      | _ => trivial
  | restore install lockOrder jobOrder =>
      simp only [checksOrder, decide_eq_true_eq] at checked
      exact checked
  | receive | apply | stop => trivial

/-- A new node installs the state after two commands and applies the third one to it. -/
theorem snapshot_then_command : ∃ replica : Replica, replica.consumer.applier.lastApplied = 3 ∧
    replica.process.node.log.lastIncludedIndex = 2 ∧
    replica.consumer.applier.store = stateAt .register threeWrites 3 := by
  have run : ∃ first replica, fresh = some first ∧
      Reaches (step .register) (fun replica event => replica.OfCommitted .register threeWrites event ∧
        replica.InOrder event) first replica ∧
        (replica.consumer.applier.lastApplied = 3 ∧ replica.process.node.log.lastIncludedIndex = 2) :=
    fresh_leadsTo (fun replica event => checksCommitted replica event && checksOrder replica event)
      (fun replica event checked => (Bool.and_eq_true_iff.mp checked).imp (checksCommitted_sound replica event)
        (checksOrder_sound replica event))
      (installsSecond ++ [appends (threeWrites.drop 2) 2] ++ hands ++ [.receive, .apply]) (by decide +kernel)
  obtain ⟨first, replica, started, reached, last, boundary⟩ := run
  refine ⟨replica, last, boundary, ?_⟩
  rw [← last]
  refine store_is_committed_state (by decide) (fresh_starts started) (fun positive => ?_) reached
  exact absurd (fresh_empty started) positive.ne'

/-- Two commands wait in the channel when the snapshot that contains them is installed: `Run` applies the
first of them to the restored state. -/
theorem queued_command_rolls_back : ∃ first replica : Replica, first.Starts .register ∧
    first.process.node.storage.contents.loadSnapshot.lastIncludedIndex = 0 ∧
    Reaches (step .register) (OfCommitted .register threeWrites) first replica ∧
    replica.consumer.applier.lastApplied = 2 ∧
    replica.consumer.applier.store.data.lookup "x" = some [1] ∧
    (stateAt .register threeWrites 2).data.lookup "x" = some [2] := by
  have run : ∃ first replica, fresh = some first ∧
      Reaches (step .register) (OfCommitted .register threeWrites) first replica ∧
        (replica.consumer.applier.lastApplied = 2 ∧
          replica.consumer.applier.store.data.lookup "x" = some [1]) :=
    fresh_leadsTo checksCommitted checksCommitted_sound
      ([appends (threeWrites.take 2) 0] ++ hands ++ hands ++ installsSecond ++ [.receive, .apply])
      (by decide +kernel)
  obtain ⟨first, replica, started, reached, last, value⟩ := run
  exact ⟨first, replica, fresh_starts started, fresh_empty started, reached, last, value, by decide +kernel⟩

end Replica

end Raftiq
