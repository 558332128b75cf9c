import Mathlib.Data.List.Pairwise
import Predix.Ownership.Lease

namespace Predix

open Data

/-! The database worker's consumer group on `events:out`. Entries are numbered
by their place in the stream, and only their partition is kept. -/

structure PendingEntry where
  entry : Nat
  deliveredAt : Nat
  deriving DecidableEq, Repr

/-- The stream, how many of its entries were ever delivered, and the pending
ones. The worker, if it runs, has the rest of a batch in hand. -/
structure EventGroup where
  stream : List Nat
  delivered : Nat
  pending : List PendingEntry
  now : Nat
  worker : Option (List Nat)
  applied : List Nat
  deriving DecidableEq, Repr

def EventGroup.start : EventGroup := ⟨[], 0, [], 0, none, []⟩

/-- `processStreamEntry`: an error before the envelope is applied, or the end of
XACK after it. To drop a stale envelope is to apply it. -/
inductive Processing where
  | failed
  | handled (ack : Call)
  deriving DecidableEq, Repr

inductive GroupInput where
  | add (partition : Nat)
  | wait (duration : Nat)
  /-- The beginning of `Run`, and how XAUTOCLAIM ends. -/
  | start (reply : Call)
  | read (reply : Call)
  | process (processing : Processing)
  | stop
  deriving DecidableEq, Repr

namespace EventGroup

def minIdle : Nat := 10000

def claimCount : Nat := 100

def readCount : Nat := 10

/-- XAUTOCLAIM looks at ten pages of the pending entries and takes at most one. -/
def claimable (group : EventGroup) : List PendingEntry :=
  ((group.pending.take (10 * claimCount)).filter fun pending =>
    minIdle ≤ group.now - pending.deliveredAt).take claimCount

def claim (group : EventGroup) : EventGroup :=
  { group with
    pending := group.pending.map fun pending =>
      if pending ∈ group.claimable then { pending with deliveredAt := group.now }
      else pending }

def unread (group : EventGroup) : List Nat :=
  List.range' group.delivered
    (min readCount (group.stream.length - group.delivered))

def deliver (group : EventGroup) : EventGroup :=
  { group with
    delivered := group.delivered + group.unread.length
    pending := group.pending ++
      group.unread.map fun entry => ⟨entry, group.now⟩ }

def fetch (group taken : EventGroup) (entries : List Nat) (reply : Call) :
    EventGroup :=
  match reply with
  | .answered => { taken with worker := some entries }
  | .unanswered => { taken with worker := some [] }
  | .failed => { group with worker := some [] }

def entries (group : EventGroup) : List Nat := group.pending.map (·.entry)

def acknowledge (group : EventGroup) (entry : Nat) (rest : List Nat)
    (ack : Call) : EventGroup :=
  { group with
    applied := group.applied ++ [entry]
    pending :=
      if ack = .failed then group.pending
      else group.pending.filter (·.entry ≠ entry)
    worker := if ack = .answered then some rest else none }

def step (group : EventGroup) : GroupInput → EventGroup
  | .add partition => { group with stream := group.stream ++ [partition] }
  | .wait duration => { group with now := group.now + duration }
  | .start reply =>
      match group.worker with
      | some _ => group
      | none =>
          group.fetch group.claim (group.claimable.map (·.entry)) reply
  | .read reply =>
      match group.worker with
      | some [] => group.fetch group.deliver group.unread reply
      | _ => group
  | .process processing =>
      match group.worker with
      | some (entry :: rest) =>
          match processing with
          | .failed => { group with worker := none }
          | .handled ack => group.acknowledge entry rest ack
      | _ => group
  | .stop => { group with worker := none }

def run (group : EventGroup) (inputs : List GroupInput) : EventGroup :=
  runFrom step group inputs

/-- Whenever an entry is applied, the earlier ones of its partition have been. -/
def InOrder (group : EventGroup) : Prop :=
  ∀ before entry after, group.applied = before ++ entry :: after →
    ∀ earlier < entry, group.stream[earlier]? = group.stream[entry]? →
      earlier ∈ before

/-- At a start XAUTOCLAIM can take what is pending and not applied: it is
answered, the entry is idle for long enough, and all that is pending fits in a
page. And no reply with new entries is lost. -/
def Patient (group : EventGroup) : GroupInput → Prop
  | .start reply => group.worker = none →
      ∀ pending ∈ group.pending, pending.entry ∉ group.applied →
        reply = .answered ∧ minIdle ≤ group.now - pending.deliveredAt ∧
          group.pending.length ≤ claimCount
  | .read reply => group.worker = some [] → reply = .unanswered →
      group.delivered = group.stream.length
  | _ => True

instance (group : EventGroup) (input : GroupInput) :
    Decidable (group.Patient input) :=
  match input with
  | .start reply =>
      inferInstanceAs (Decidable (group.worker = none →
        ∀ pending ∈ group.pending, pending.entry ∉ group.applied →
          reply = .answered ∧ minIdle ≤ group.now - pending.deliveredAt ∧
            group.pending.length ≤ claimCount))
  | .read reply =>
      inferInstanceAs (Decidable (group.worker = some [] →
        reply = .unanswered → group.delivered = group.stream.length))
  | .add _ | .wait _ | .process _ | .stop => .isTrue trivial

/-- A sorted batch of delivered entries, with all those not applied. -/
structure Complete (delivered : Nat) (applied batch : List Nat) : Prop where
  sorted : batch.Pairwise (· < ·)
  below : ∀ {entry}, entry ∈ batch → entry < delivered
  all : ∀ {entry}, entry < delivered → entry ∉ applied → entry ∈ batch

structure Sound (group : EventGroup) : Prop where
  bound : group.delivered ≤ group.stream.length
  pending : Complete group.delivered group.applied group.entries
  batch : ∀ {batch}, group.worker = some batch →
    Complete group.delivered group.applied batch
  applied : ∀ before entry after, group.applied = before ++ entry :: after →
    ∀ earlier < entry, earlier ∈ before

private theorem Complete.nil {delivered : Nat} {applied : List Nat}
    (all : ∀ entry < delivered, entry ∈ applied) :
    Complete delivered applied [] where
  sorted := .nil
  below member := nomatch member
  all bound new := absurd (all _ bound) new

private theorem Complete.earlier {delivered entry : Nat}
    {applied rest : List Nat}
    (complete : Complete delivered applied (entry :: rest)) :
    ∀ earlier < entry, earlier ∈ applied := by
  intro earlier smaller
  have bound := complete.below List.mem_cons_self
  by_contra new
  rcases List.mem_cons.mp (complete.all (Nat.lt_trans smaller bound) new) with
    same | later
  · omega
  · have larger := (List.pairwise_cons.mp complete.sorted).1 earlier later
    omega

private theorem Complete.apply {delivered : Nat} {applied batch : List Nat}
    (complete : Complete delivered applied batch) (entry : Nat) :
    Complete delivered (applied ++ [entry]) batch :=
  { complete with
    all := fun bound new =>
      complete.all bound fun old => new (List.mem_append_left _ old) }

theorem Complete.remove {delivered : Nat} {applied batch kept : List Nat}
    (complete : Complete delivered applied batch) (sublist : kept.Sublist batch)
    (left : ∀ entry ∈ batch, entry ∉ applied → entry ∈ kept) :
    Complete delivered applied kept where
  sorted := complete.sorted.sublist sublist
  below member := complete.below (sublist.subset member)
  all bound new := left _ (complete.all bound new) new

theorem Complete.deliver {delivered : Nat} {applied batch : List Nat}
    (complete : Complete delivered applied batch) (count : Nat) :
    Complete (delivered + count) applied
      (batch ++ List.range' delivered count) where
  sorted := by
    apply List.pairwise_append.mpr
    refine ⟨complete.sorted, List.pairwise_lt_range', ?_⟩
    intro old isOld new isNew
    have bound := complete.below isOld
    rw [List.mem_range'_1] at isNew
    omega
  below member := by
    rcases List.mem_append.mp member with old | new
    · exact Nat.lt_add_right count (complete.below old)
    · exact (List.mem_range'_1.mp new).2
  all := by
    intro entry bound new
    by_cases old : entry < delivered
    · exact List.mem_append_left _ (complete.all old new)
    · apply List.mem_append_right
      exact List.mem_range'_1.mpr ⟨Nat.le_of_not_lt old, bound⟩

theorem sound_start : Sound .start where
  bound := Nat.le_refl 0
  pending := .nil fun _ bound => nomatch bound
  batch running := nomatch running
  applied := splits_nil

variable {group : EventGroup}

private theorem mem_claimable {pending : PendingEntry}
    (member : pending ∈ group.pending)
    (idle : minIdle ≤ group.now - pending.deliveredAt)
    (short : group.pending.length ≤ claimCount) :
    pending ∈ group.claimable := by
  unfold claimable
  rw [List.take_of_length_le (Nat.le_trans short (by decide)),
    List.take_of_length_le
      (Nat.le_trans (List.length_filter_le _ group.pending) short)]
  exact List.mem_filter.mpr ⟨member, decide_eq_true idle⟩

private theorem claimable_sublist (group : EventGroup) :
    group.claimable.Sublist group.pending :=
  (List.take_sublist _ _).trans
    (List.filter_sublist.trans (List.take_sublist _ _))

private theorem entries_claim (group : EventGroup) :
    group.claim.entries = group.entries := by
  rw [entries, claim, List.map_map]
  apply List.map_congr_left
  intro pending _
  simp only [Function.comp_apply]
  split <;> rfl

private theorem entries_deliver (group : EventGroup) :
    group.deliver.entries = group.entries ++ group.unread := by
  simp [entries, deliver, Function.comp_def]

private theorem Sound.stop (sound : group.Sound) :
    ({ group with worker := none } : EventGroup).Sound :=
  { sound with batch := fun running => nomatch running }

private theorem Sound.work (sound : group.Sound) {batch : List Nat}
    (complete : Complete group.delivered group.applied batch) :
    ({ group with worker := some batch } : EventGroup).Sound := by
  refine { sound with batch := ?_ }
  intro found running
  cases running
  exact complete

private theorem Sound.claim (sound : group.Sound) (idle : group.worker = none) :
    group.claim.Sound where
  bound := sound.bound
  pending := by
    rw [entries_claim]
    exact sound.pending
  batch running := nomatch idle.symm.trans running
  applied := sound.applied

private theorem Sound.claimed (sound : group.Sound)
    (patient : ∀ pending ∈ group.pending, pending.entry ∉ group.applied →
      minIdle ≤ group.now - pending.deliveredAt ∧
        group.pending.length ≤ claimCount) :
    Complete group.delivered group.applied (group.claimable.map (·.entry)) := by
  apply sound.pending.remove (group.claimable_sublist.map _)
  intro entry member new
  obtain ⟨pending, isPending, rfl⟩ := List.mem_map.mp member
  obtain ⟨idle, short⟩ := patient pending isPending new
  exact List.mem_map_of_mem (mem_claimable isPending idle short)

private theorem Sound.deliver (sound : group.Sound) {batch : List Nat}
    (complete : Complete group.deliver.delivered group.applied batch) :
    ({ group.deliver with worker := some batch } : EventGroup).Sound where
  bound := by
    have bound := sound.bound
    simp only [EventGroup.deliver, unread, List.length_range']
    omega
  pending := by
    change Complete _ _ group.deliver.entries
    have all := sound.pending.deliver group.unread.length
    rw [entries_deliver]
    simpa [EventGroup.deliver, unread] using all
  batch running := by
    cases running
    exact complete
  applied := sound.applied

private theorem Sound.acknowledge (sound : group.Sound) {entry : Nat}
    {rest : List Nat} (running : group.worker = some (entry :: rest))
    (ack : Call) : (group.acknowledge entry rest ack).Sound := by
  have batch := sound.batch running
  have here : entry ∈ group.applied ++ [entry] :=
    List.mem_append_right _ (List.mem_singleton_self entry)
  refine ⟨sound.bound, ?_, ?_, ?_⟩
  · have pending := sound.pending.apply entry
    by_cases unanswered : ack = .failed
    · simp only [EventGroup.acknowledge, entries, if_pos unanswered]
      exact pending
    · simp only [EventGroup.acknowledge, entries, if_neg unanswered]
      apply pending.remove (List.filter_sublist.map _)
      intro other member new
      obtain ⟨kept, isKept, rfl⟩ := List.mem_map.mp member
      apply List.mem_map_of_mem
      refine List.mem_filter.mpr ⟨isKept, decide_eq_true ?_⟩
      intro same
      exact new (same ▸ here)
  · intro left isLeft
    simp only [EventGroup.acknowledge] at isLeft
    split at isLeft
    · cases isLeft
      apply (batch.apply entry).remove (List.sublist_cons_self entry rest)
      intro other member new
      rcases List.mem_cons.mp member with rfl | later
      · exact absurd here new
      · exact later
    · cases isLeft
  · exact splits_append sound.applied batch.earlier

theorem Sound.step (sound : group.Sound) (input : GroupInput)
    (patient : group.Patient input) : (group.step input).Sound := by
  cases input with
  | add partition =>
      refine { sound with bound := ?_ }
      change _ ≤ (group.stream ++ [partition]).length
      rw [List.length_append]
      exact Nat.le_add_right_of_le sound.bound
  | wait duration => exact { sound with }
  | start reply =>
      simp only [EventGroup.step]
      split
      · exact sound
      · next idle =>
          have caught : reply ≠ .answered →
              Complete group.delivered group.applied [] := by
            intro lost
            apply sound.pending.remove (List.nil_sublist _)
            intro entry member new
            obtain ⟨pending, isPending, rfl⟩ := List.mem_map.mp member
            exact absurd (patient idle pending isPending new).1 lost
          cases reply with
          | answered =>
              apply (sound.claim idle).work
              apply sound.claimed
              intro pending isPending new
              exact (patient idle pending isPending new).2
          | unanswered => exact (sound.claim idle).work (caught nofun)
          | failed => exact sound.work (caught nofun)
  | read reply =>
      simp only [EventGroup.step]
      split
      · next waiting =>
          have caught := sound.batch waiting
          cases reply with
          | answered =>
              apply sound.deliver
              have fresh := caught.deliver group.unread.length
              simpa [EventGroup.deliver, unread] using fresh
          | unanswered =>
              apply sound.deliver
              have nothing : group.unread = [] := by
                rw [unread, patient waiting rfl, Nat.sub_self]
                rfl
              rw [EventGroup.deliver, nothing]
              exact caught
          | failed => exact sound.work caught
      · exact sound
  | process processing =>
      simp only [EventGroup.step]
      split
      · next entry rest running =>
          cases processing with
          | failed => exact sound.stop
          | handled ack => exact sound.acknowledge running ack
      · exact sound
  | stop => exact sound.stop

/-- While every restart finds what was left behind, events are applied in
stream order. -/
theorem events_inOrder (inputs : List GroupInput)
    (patient : Along step Patient .start inputs) :
    (run .start inputs).InOrder := by
  have sound : (run .start inputs).Sound :=
    invariant_runFrom Sound
      (fun _ input sound patient => sound.step input patient) sound_start patient
  intro before entry after split earlier smaller _
  exact sound.applied before entry after split earlier smaller

/-- A restart ten seconds after an error claims the entry that failed. -/
theorem inOrder_claimed :
    (run .start
      [.add 0, .start .answered, .read .answered, .process .failed, .add 0,
        .wait 10000, .start .answered, .process (.handled .answered),
        .read .answered, .process (.handled .answered)]).InOrder :=
  events_inOrder _ (by decide)

/-- A restart right after the error reads on behind the entry that failed. -/
theorem restarted_outOfOrder :
    ¬ (run .start
      [.add 0, .start .answered, .read .answered, .process .failed, .add 0,
        .start .answered, .read .answered,
        .process (.handled .answered)]).InOrder := by
  intro inOrder
  have applied := inOrder [] 1 [] (by decide) 0 (by decide) (by decide)
  cases applied

end EventGroup

end Predix
