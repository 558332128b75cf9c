import Predix.Ownership.Lease

namespace Predix

open Data

/-! Taking over a partition: the command stream, its consumer group, and the
engines that replay and consume it. A command is known by its position in the
stream. -/

/-- How far an owner has come. A snapshot is the length of the stream at
XRANGE; there is none if XRANGE failed, and consuming begins all the same. -/
inductive Progress where
  | starting
  | replaying (snapshot done : Nat)
  | claiming (snapshot : Option Nat)
  | consuming (snapshot : Option Nat)
  deriving DecidableEq, Repr

def Progress.snapshot? : Progress → Option Nat
  | .starting => none
  | .replaying snapshot _ => some snapshot
  | .claiming snapshot | .consuming snapshot => snapshot

def Progress.replayed : Progress → Nat
  | .starting => 0
  | .replaying _ done => done
  | .claiming snapshot | .consuming snapshot => snapshot.getD 0

def Progress.complete : Progress → Bool
  | .starting | .replaying _ _ => false
  | .claiming snapshot | .consuming snapshot => snapshot.isSome

private theorem Progress.snapshot_of_complete {progress : Progress}
    (complete : progress.complete = true) :
    ∃ snapshot, progress.snapshot? = some snapshot ∧
      progress.replayed = snapshot := by
  cases progress with
  | starting => contradiction
  | replaying _ _ => contradiction
  | claiming snapshot =>
      obtain ⟨length, rfl⟩ := Option.isSome_iff_exists.mp complete
      exact ⟨length, rfl, rfl⟩
  | consuming snapshot =>
      obtain ⟨length, rfl⟩ := Option.isSome_iff_exists.mp complete
      exact ⟨length, rfl, rfl⟩

/-- The memory of an engine: the entries it has been handed and not yet
finished, whether the first of them is executed and only to be acknowledged,
and every entry executed since the engine was started. -/
structure Consumer where
  progress : Progress
  inbox : List Nat
  handled : Bool
  executed : List Nat
  deriving DecidableEq, Repr

def Consumer.fresh : Consumer := ⟨.starting, [], false, []⟩

/-- A crash loses everything. An engine that gives up the lease keeps its
memory and starts its loop over. -/
def Consumer.enter (consumer : Consumer) : Phase → Consumer
  | .down => .fresh
  | .competing => { Consumer.fresh with executed := consumer.executed }
  | _ => consumer

structure Takeover where
  ownership : Ownership
  length : Nat
  delivered : Nat
  pending : List Nat
  acknowledged : List Nat
  consumers : String → Consumer

def Takeover.start : Takeover := ⟨.start, 0, 0, [], [], fun _ => .fresh⟩

inductive ConsumerAction where
  /-- XRANGE over the whole stream. -/
  | range (answered : Bool)
  /-- The replay executes its next entry, or ends. -/
  | replay
  /-- XAUTOCLAIM hands over some pending entries. -/
  | claim (claimed : List Nat)
  /-- XREADGROUP hands out the next entries. -/
  | deliver (count : Nat) (call : Call)
  | execute
  | acknowledge (call : Call)
  deriving DecidableEq, Repr

inductive TakeoverInput where
  | ownership (input : OwnershipInput)
  | append
  | act (engine : String) (action : ConsumerAction)
  deriving DecidableEq, Repr

namespace Takeover

def setConsumer (takeover : Takeover) (engine : String)
    (consumer : Consumer) : Takeover :=
  { takeover with
    consumers := Function.update takeover.consumers engine consumer }

def Busy (takeover : Takeover) : OwnershipInput → Prop
  | .leave engine _ => (takeover.consumers engine).inbox ≠ []
  | _ => False

instance (takeover : Takeover) (input : OwnershipInput) :
    Decidable (takeover.Busy input) :=
  match input with
  | .leave engine _ => inferInstanceAs (Decidable
      ((takeover.consumers engine).inbox ≠ []))
  | .start _ | .acquire _ _ | .next _ _ | .renew _ _ | .release _ _
  | .expire | .crash _ => .isFalse id

def control (takeover : Takeover) (input : OwnershipInput) : Takeover :=
  let ownership := takeover.ownership.step input
  { takeover with
    ownership := ownership
    consumers := fun engine =>
      (takeover.consumers engine).enter (ownership.phase engine) }

def undelivered (takeover : Takeover) (count : Nat) : List Nat :=
  (List.range' takeover.delivered count).filter (· < takeover.length)

def handOut (takeover : Takeover) (count : Nat) : Takeover :=
  let positions := takeover.undelivered count
  { takeover with
    delivered := takeover.delivered + positions.length
    pending := takeover.pending ++ positions }

def confirm (takeover : Takeover) (position : Nat) : Call → Takeover
  | .failed => takeover
  | _ =>
      { takeover with
        pending := takeover.pending.erase position
        acknowledged := takeover.acknowledged ++ [position] }

/-- The entries are read one batch after the other; the next batch is read when
the last one is finished. -/
def act (takeover : Takeover) (engine : String) (consumer : Consumer) :
    ConsumerAction → Takeover
  | .range answered =>
      match consumer.progress with
      | .starting => takeover.setConsumer engine
          { consumer with
            progress :=
              if answered then .replaying takeover.length 0
              else .claiming none }
      | _ => takeover
  | .replay =>
      match consumer.progress with
      | .replaying snapshot done =>
          if done < snapshot then
            takeover.setConsumer engine
              { consumer with
                progress := .replaying snapshot (done + 1)
                executed := consumer.executed ++ [done] }
          else
            takeover.setConsumer engine
              { consumer with progress := .claiming (some snapshot) }
      | _ => takeover
  | .claim claimed =>
      match consumer.progress with
      | .claiming snapshot => takeover.setConsumer engine
          { consumer with
            progress := .consuming snapshot
            inbox := takeover.pending.filter (· ∈ claimed) }
      | _ => takeover
  | .deliver count call =>
      match consumer.progress, consumer.inbox, call with
      | .consuming _, [], .answered =>
          (takeover.handOut count).setConsumer engine
            { consumer with inbox := takeover.undelivered count }
      | .consuming _, [], .unanswered => takeover.handOut count
      | _, _, _ => takeover
  | .execute =>
      match consumer.inbox, consumer.handled with
      | position :: _, false => takeover.setConsumer engine
          { consumer with
            handled := true
            executed := consumer.executed ++ [position] }
      | _, _ => takeover
  | .acknowledge call =>
      match consumer.inbox, consumer.handled with
      | position :: inbox, true =>
          (takeover.confirm position call).setConsumer engine
            { consumer with inbox := inbox, handled := false }
      | _, _ => takeover

def step (takeover : Takeover) : TakeoverInput → Takeover
  | .ownership input =>
      if takeover.Busy input then takeover else takeover.control input
  | .append => { takeover with length := takeover.length + 1 }
  | .act engine action =>
      match takeover.ownership.phase engine with
      | .owning _ _ _ =>
          takeover.act engine (takeover.consumers engine) action
      | _ => takeover

def run (takeover : Takeover) (inputs : List TakeoverInput) : Takeover :=
  runFrom step takeover inputs

/-- Once the holder of the lease has completed its replay and finished what it
was handed, it has executed every acknowledged entry. -/
def NothingMissing (takeover : Takeover) : Prop :=
  ∀ holder ∈ takeover.ownership.lease,
    (takeover.consumers holder).progress.complete = true →
      (takeover.consumers holder).inbox = [] →
        ∀ position ∈ takeover.acknowledged,
          position ∈ (takeover.consumers holder).executed

instance (takeover : Takeover) : Decidable takeover.NothingMissing :=
  inferInstanceAs (Decidable (∀ holder ∈ takeover.ownership.lease, _))

def handed (takeover : Takeover) : ConsumerAction → List Nat
  | .claim claimed => takeover.pending.filter (· ∈ claimed)
  | .deliver count .answered => takeover.undelivered count
  | _ => []

/-- While another engine holds the lease, the group hands out only entries that
the holder's replay covers. -/
def HolderFirst (takeover : Takeover) : TakeoverInput → Prop
  | .act engine action => ∀ holder ∈ takeover.ownership.lease,
      holder ≠ engine →
        ∀ snapshot ∈ (takeover.consumers holder).progress.snapshot?,
          ∀ position ∈ takeover.handed action, position < snapshot
  | _ => True

instance (takeover : Takeover) (input : TakeoverInput) :
    Decidable (takeover.HolderFirst input) :=
  match input with
  | .act engine action => inferInstanceAs (Decidable
      (∀ holder ∈ takeover.ownership.lease, holder ≠ engine →
        ∀ snapshot ∈ (takeover.consumers holder).progress.snapshot?,
          ∀ position ∈ takeover.handed action, position < snapshot))
  | .ownership _ | .append => .isTrue trivial

end Takeover

/-! One consumer. -/

structure Consumer.Valid (consumer : Consumer) (length : Nat) : Prop where
  bound : ∀ position ∈ consumer.inbox, position < length
  waiting : (∀ snapshot, consumer.progress ≠ .consuming snapshot) →
    consumer.inbox = []
  head : consumer.handled = true → ∃ position inbox,
    consumer.inbox = position :: inbox ∧ position ∈ consumer.executed
  replayed : ∀ position < consumer.progress.replayed,
    position ∈ consumer.executed

theorem Consumer.Valid.unhandled {consumer : Consumer} {length : Nat}
    (valid : consumer.Valid length) (empty : consumer.inbox = []) :
    consumer.handled = false := by
  cases handled : consumer.handled with
  | false => rfl
  | true =>
      obtain ⟨position, inbox, head, -⟩ := valid.head handled
      rw [empty] at head
      contradiction

private theorem Consumer.valid_enter {consumer : Consumer} {length : Nat}
    (valid : consumer.Valid length) (phase : Phase) :
    (consumer.enter phase).Valid length := by
  have empty : ∀ executed, ({ Consumer.fresh with executed := executed } :
      Consumer).Valid length := by
    intro executed
    refine ⟨?_, fun _ => rfl, ?_, ?_⟩
    · intro position absent
      contradiction
    · intro handled
      contradiction
    · intro position none
      exact absurd none (Nat.not_lt_zero position)
  cases phase with
  | down => exact empty []
  | competing => exact empty consumer.executed
  | acquired _ => exact valid
  | owning _ _ _ => exact valid
  | leaving => exact valid

/-! What one action can do, said once. -/

structure Acted (before after : Takeover) (engine : String)
    (action : ConsumerAction) : Prop where
  ownership : after.ownership = before.ownership
  length : after.length = before.length
  others : ∀ other ≠ engine, after.consumers other = before.consumers other
  pending : ∀ position ∈ after.pending,
    position ∈ before.pending ∨ position < before.length
  acknowledged : ∀ position ∈ after.acknowledged,
    position ∈ before.acknowledged ∨
      position ∈ (before.consumers engine).inbox ∧
        position ∈ (before.consumers engine).executed
  inbox : ∀ position ∈ (after.consumers engine).inbox,
    position ∈ (before.consumers engine).inbox ∨
      position ∈ before.handed action
  executed : ∀ position ∈ (before.consumers engine).executed,
    position ∈ (after.consumers engine).executed
  snapshot : ∀ snapshot ∈ (after.consumers engine).progress.snapshot?,
    (before.consumers engine).progress.snapshot? = some snapshot ∨
      snapshot = before.length
  valid : (after.consumers engine).Valid before.length

section Acted

variable {takeover : Takeover} {engine : String}

theorem acted_nothing (action : ConsumerAction)
    (valid : (takeover.consumers engine).Valid takeover.length) :
    Acted takeover takeover engine action :=
  ⟨rfl, rfl, fun _ _ => rfl, fun _ pending => .inl pending,
    fun _ acknowledged => .inl acknowledged, fun _ inbox => .inl inbox,
    fun _ executed => executed, fun _ snapshot => .inl snapshot, valid⟩

theorem Acted.setConsumer {shared : Takeover} {consumer : Consumer}
    {action : ConsumerAction}
    (acted : Acted takeover shared engine action)
    (inbox : ∀ position ∈ consumer.inbox,
      position ∈ (takeover.consumers engine).inbox ∨
        position ∈ takeover.handed action)
    (executed : ∀ position ∈ (takeover.consumers engine).executed,
      position ∈ consumer.executed)
    (snapshot : ∀ snapshot ∈ consumer.progress.snapshot?,
      (takeover.consumers engine).progress.snapshot? = some snapshot ∨
        snapshot = takeover.length)
    (valid : consumer.Valid takeover.length) :
    Acted takeover (shared.setConsumer engine consumer) engine action := by
  have now : (shared.setConsumer engine consumer).consumers engine =
      consumer := Function.update_self _ _ _
  refine ⟨acted.ownership, acted.length, ?_, acted.pending,
    acted.acknowledged, ?_, ?_, ?_, ?_⟩
  · intro other different
    rw [← acted.others other different]
    exact Function.update_of_ne different _ _
  · rw [now]
    exact inbox
  · rw [now]
    exact executed
  · rw [now]
    exact snapshot
  · rw [now]
    exact valid

theorem mem_undelivered {count position : Nat}
    (member : position ∈ takeover.undelivered count) :
    position < takeover.length := by
  simpa using (List.mem_filter.mp member).2

private theorem Acted.handOut {action : ConsumerAction}
    (nothing : Acted takeover takeover engine action) (count : Nat) :
    Acted takeover (takeover.handOut count) engine action where
  ownership := rfl
  length := rfl
  others := nothing.others
  pending := by
    intro position pending
    rcases List.mem_append.mp pending with before | new
    · exact .inl before
    · exact .inr (mem_undelivered new)
  acknowledged := nothing.acknowledged
  inbox := nothing.inbox
  executed := nothing.executed
  snapshot := nothing.snapshot
  valid := nothing.valid

private theorem Acted.confirm {action : ConsumerAction} {position : Nat}
    (nothing : Acted takeover takeover engine action)
    (inbox : position ∈ (takeover.consumers engine).inbox)
    (executed : position ∈ (takeover.consumers engine).executed)
    (call : Call) :
    Acted takeover (takeover.confirm position call) engine action := by
  have confirmed : Acted takeover
      { takeover with
        pending := takeover.pending.erase position
        acknowledged := takeover.acknowledged ++ [position] } engine
      action := by
    refine ⟨rfl, rfl, nothing.others, ?_, ?_, nothing.inbox,
      nothing.executed, nothing.snapshot, nothing.valid⟩
    · intro other pending
      exact .inl (List.mem_of_mem_erase pending)
    · intro other acknowledged
      rcases List.mem_append.mp acknowledged with before | new
      · exact .inl before
      · rw [List.mem_singleton.mp new]
        exact .inr ⟨inbox, executed⟩
  cases call with
  | failed => exact nothing
  | unanswered => exact confirmed
  | answered => exact confirmed

private theorem acted_range (answered : Bool)
    (valid : (takeover.consumers engine).Valid takeover.length) :
    Acted takeover (takeover.act engine (takeover.consumers engine)
      (.range answered)) engine (.range answered) := by
  have nothing := acted_nothing (.range answered) valid
  simp only [Takeover.act]
  split
  · rename_i starting
    have empty := valid.waiting (by simp [starting])
    apply nothing.setConsumer
    · exact fun _ member => .inl member
    · exact fun _ member => member
    · intro snapshot taken
      cases answered with
      | false => contradiction
      | true =>
          cases taken
          exact .inr rfl
    · refine ⟨valid.bound, fun _ => empty, valid.head, ?_⟩
      cases answered <;>
        exact fun position none => absurd none (Nat.not_lt_zero position)
  · exact nothing

private theorem acted_replay
    (valid : (takeover.consumers engine).Valid takeover.length) :
    Acted takeover (takeover.act engine (takeover.consumers engine)
      .replay) engine .replay := by
  have nothing := acted_nothing .replay valid
  simp only [Takeover.act]
  split
  · rename_i snapshot done replaying
    have empty := valid.waiting (by simp [replaying])
    have unhandled := valid.unhandled empty
    have covered := valid.replayed
    rw [replaying] at covered
    split
    · apply nothing.setConsumer
      · exact fun _ member => .inl member
      · exact fun _ member => List.mem_append_left _ member
      · intro other taken
        rw [replaying]
        exact .inl taken
      · refine ⟨valid.bound, fun _ => empty, ?_, ?_⟩
        · intro handled
          rw [unhandled] at handled
          contradiction
        · intro position before
          rcases Nat.lt_succ_iff_lt_or_eq.mp before with earlier | rfl
          · exact List.mem_append_left _ (covered position earlier)
          · exact List.mem_append_right _ (List.mem_singleton_self _)
    · rename_i complete
      apply nothing.setConsumer
      · exact fun _ member => .inl member
      · exact fun _ member => member
      · intro other taken
        rw [replaying]
        exact .inl taken
      · refine ⟨valid.bound, fun _ => empty, valid.head, ?_⟩
        intro position before
        exact covered position
          (Nat.lt_of_lt_of_le before (Nat.le_of_not_lt complete))
  · exact nothing

private theorem acted_claim (claimed : List Nat)
    (pendingBound : ∀ position ∈ takeover.pending,
      position < takeover.length)
    (valid : (takeover.consumers engine).Valid takeover.length) :
    Acted takeover (takeover.act engine (takeover.consumers engine)
      (.claim claimed)) engine (.claim claimed) := by
  have nothing := acted_nothing (.claim claimed) valid
  simp only [Takeover.act]
  split
  · rename_i snapshot claiming
    have unhandled := valid.unhandled (valid.waiting (by simp [claiming]))
    have covered := valid.replayed
    rw [claiming] at covered
    apply nothing.setConsumer
    · exact fun _ member => .inr member
    · exact fun _ member => member
    · intro other taken
      rw [claiming]
      exact .inl taken
    · refine ⟨?_, ?_, ?_, covered⟩
      · intro position member
        exact pendingBound position (List.mem_filter.mp member).1
      · intro notConsuming
        exact absurd rfl (notConsuming snapshot)
      · intro handled
        rw [unhandled] at handled
        contradiction
  · exact nothing

private theorem acted_deliver (count : Nat) (call : Call)
    (valid : (takeover.consumers engine).Valid takeover.length) :
    Acted takeover (takeover.act engine (takeover.consumers engine)
      (.deliver count call)) engine (.deliver count call) := by
  have nothing := acted_nothing (.deliver count call) valid
  simp only [Takeover.act]
  split
  · rename_i snapshot consuming empty
    have unhandled := valid.unhandled empty
    apply (nothing.handOut count).setConsumer
    · exact fun _ member => .inr member
    · exact fun _ member => member
    · exact fun _ taken => .inl taken
    · refine ⟨fun _ member => mem_undelivered member, ?_, ?_, valid.replayed⟩
      · intro notConsuming
        exact absurd consuming (notConsuming snapshot)
      · intro handled
        rw [unhandled] at handled
        contradiction
  · exact nothing.handOut count
  · exact nothing

private theorem acted_execute
    (valid : (takeover.consumers engine).Valid takeover.length) :
    Acted takeover (takeover.act engine (takeover.consumers engine)
      .execute) engine .execute := by
  have nothing := acted_nothing .execute valid
  simp only [Takeover.act]
  split
  · rename_i position inbox first _
    apply nothing.setConsumer
    · exact fun _ member => .inl member
    · exact fun _ member => List.mem_append_left _ member
    · exact fun _ taken => .inl taken
    · refine ⟨valid.bound, valid.waiting, ?_, ?_⟩
      · exact fun _ => ⟨position, inbox, first,
          List.mem_append_right _ (List.mem_singleton_self _)⟩
      · exact fun other before =>
          List.mem_append_left _ (valid.replayed other before)
  · exact nothing

private theorem acted_acknowledge (call : Call)
    (valid : (takeover.consumers engine).Valid takeover.length) :
    Acted takeover (takeover.act engine (takeover.consumers engine)
      (.acknowledge call)) engine (.acknowledge call) := by
  have nothing := acted_nothing (.acknowledge call) valid
  simp only [Takeover.act]
  split
  · rename_i position inbox first handled
    have member : position ∈ (takeover.consumers engine).inbox := by
      rw [first]
      exact List.mem_cons_self
    have rest : ∀ other ∈ inbox,
        other ∈ (takeover.consumers engine).inbox := by
      intro other later
      rw [first]
      exact List.mem_cons_of_mem _ later
    have executed : position ∈ (takeover.consumers engine).executed := by
      obtain ⟨head, _, isHead, executed⟩ := valid.head handled
      rw [first] at isHead
      cases isHead
      exact executed
    apply (nothing.confirm member executed call).setConsumer
    · exact fun other later => .inl (rest other later)
    · exact fun _ member => member
    · exact fun _ taken => .inl taken
    · refine ⟨fun other later => valid.bound other (rest other later), ?_,
        ?_, valid.replayed⟩
      · intro notConsuming
        have empty := valid.waiting notConsuming
        rw [first] at empty
        contradiction
      · intro absent
        contradiction
  · exact nothing

private theorem acted_act (pendingBound : ∀ position ∈ takeover.pending,
      position < takeover.length)
    (valid : (takeover.consumers engine).Valid takeover.length)
    (action : ConsumerAction) :
    Acted takeover
      (takeover.act engine (takeover.consumers engine) action) engine
      action := by
  cases action with
  | range answered => exact acted_range answered valid
  | replay => exact acted_replay valid
  | claim claimed => exact acted_claim claimed pendingBound valid
  | deliver count call => exact acted_deliver count call valid
  | execute => exact acted_execute valid
  | acknowledge call => exact acted_acknowledge call valid

end Acted

/-! The whole system. -/

structure Takeover.Covered (takeover : Takeover) : Prop where
  pending : ∀ position ∈ takeover.pending, position < takeover.length
  acknowledged : ∀ position ∈ takeover.acknowledged,
    position < takeover.length
  valid : ∀ engine, (takeover.consumers engine).Valid takeover.length
  competing : ∀ engine, takeover.ownership.phase engine = .competing →
    (takeover.consumers engine).progress = .starting
  acquired : ∀ engine acquisition,
    takeover.ownership.phase engine = .acquired acquisition →
      (takeover.consumers engine).progress = .starting
  elsewhere : ∀ holder ∈ takeover.ownership.lease,
    ∀ snapshot ∈ (takeover.consumers holder).progress.snapshot?,
      ∀ other ≠ holder, ∀ position ∈ (takeover.consumers other).inbox,
        position < snapshot
  done : ∀ holder ∈ takeover.ownership.lease,
    ∀ snapshot ∈ (takeover.consumers holder).progress.snapshot?,
      ∀ position ∈ takeover.acknowledged,
        position < snapshot ∨
          position ∈ (takeover.consumers holder).executed

theorem covered_start : Takeover.start.Covered where
  pending := fun _ absent => by contradiction
  acknowledged := fun _ absent => by contradiction
  valid := by
    intro engine
    refine ⟨?_, fun _ => rfl, ?_, ?_⟩
    · intro position absent
      contradiction
    · intro handled
      contradiction
    · intro position none
      exact absurd none (Nat.not_lt_zero position)
  competing := fun _ _ => rfl
  acquired := fun _ _ _ => rfl
  elsewhere := fun _ absent => by contradiction
  done := fun _ absent => by contradiction

section Covered

variable {takeover : Takeover}

private theorem mem_enter_inbox {consumer : Consumer} {phase : Phase}
    {position : Nat} (member : position ∈ (consumer.enter phase).inbox) :
    position ∈ consumer.inbox := by
  cases phase with
  | down => contradiction
  | competing => contradiction
  | acquired _ => exact member
  | owning _ _ _ => exact member
  | leaving => exact member

private theorem enter_of_snapshot {consumer : Consumer} {phase : Phase}
    {snapshot : Nat}
    (taken : snapshot ∈ (consumer.enter phase).progress.snapshot?) :
    consumer.enter phase = consumer := by
  cases phase with
  | down => contradiction
  | competing => contradiction
  | acquired _ => rfl
  | owning _ _ _ => rfl
  | leaving => rfl

private theorem covered_control (covered : takeover.Covered)
    (input : OwnershipInput) : (takeover.control input).Covered := by
  -- A holder with a snapshot has held the lease since it took the snapshot.
  have held : ∀ {holder snapshot},
      (takeover.ownership.step input).lease = some holder →
        snapshot ∈ ((takeover.control input).consumers
          holder).progress.snapshot? →
          takeover.ownership.lease = some holder ∧
            (takeover.control input).consumers holder =
              takeover.consumers holder := by
    intro holder snapshot holds taken
    have same := enter_of_snapshot taken
    refine ⟨?_, same⟩
    rcases lease_step holds with before | competing
    · exact before
    · change snapshot ∈ ((takeover.consumers holder).enter _).progress.snapshot?
        at taken
      rw [same, covered.competing holder competing] at taken
      contradiction
  refine ⟨covered.pending, covered.acknowledged, ?_, ?_, ?_, ?_, ?_⟩
  · exact fun engine => Consumer.valid_enter (covered.valid engine) _
  · intro engine competing
    change ((takeover.consumers engine).enter
      ((takeover.ownership.step input).phase engine)).progress = _
    change (takeover.ownership.step input).phase engine = _ at competing
    rw [competing]
    rfl
  · intro engine acquisition acquired
    change ((takeover.consumers engine).enter
      ((takeover.ownership.step input).phase engine)).progress = _
    change (takeover.ownership.step input).phase engine = _ at acquired
    rw [acquired]
    rcases acquired_step acquired with before | competing
    · exact covered.acquired engine acquisition before
    · exact covered.competing engine competing
  · intro holder holds snapshot taken other different position member
    obtain ⟨before, same⟩ := held holds taken
    rw [same] at taken
    exact covered.elsewhere holder before snapshot taken other different
      position (mem_enter_inbox member)
  · intro holder holds snapshot taken position acknowledged
    obtain ⟨before, same⟩ := held holds taken
    rw [same] at taken ⊢
    exact covered.done holder before snapshot taken position acknowledged

private theorem covered_append (covered : takeover.Covered) :
    ({ takeover with length := takeover.length + 1 } : Takeover).Covered where
  pending := fun position member =>
    Nat.lt_succ_of_lt (covered.pending position member)
  acknowledged := fun position member =>
    Nat.lt_succ_of_lt (covered.acknowledged position member)
  valid := fun engine =>
    ⟨fun position member =>
      Nat.lt_succ_of_lt ((covered.valid engine).bound position member),
      (covered.valid engine).waiting, (covered.valid engine).head,
      (covered.valid engine).replayed⟩
  competing := covered.competing
  acquired := covered.acquired
  elsewhere := covered.elsewhere
  done := covered.done

private theorem covered_acted {after : Takeover} {engine : String}
    {action : ConsumerAction} (covered : takeover.Covered)
    (owning : ∃ acquisition token canceled,
      takeover.ownership.phase engine = .owning acquisition token canceled)
    (acted : Acted takeover after engine action)
    (holderFirst : takeover.HolderFirst (.act engine action)) :
    after.Covered where
  pending := by
    intro position pending
    rw [acted.length]
    rcases acted.pending position pending with before | bound
    · exact covered.pending position before
    · exact bound
  acknowledged := by
    intro position acknowledged
    rw [acted.length]
    rcases acted.acknowledged position acknowledged with before | ⟨mine, -⟩
    · exact covered.acknowledged position before
    · exact (covered.valid engine).bound position mine
  valid := by
    intro other
    rw [acted.length]
    by_cases same : other = engine
    · rw [same]
      exact acted.valid
    · rw [acted.others other same]
      exact covered.valid other
  competing := by
    intro other competing
    rw [acted.ownership] at competing
    have different : other ≠ engine := by
      rintro rfl
      obtain ⟨_, _, _, owning⟩ := owning
      rw [owning] at competing
      contradiction
    rw [acted.others other different]
    exact covered.competing other competing
  acquired := by
    intro other acquisition acquired
    rw [acted.ownership] at acquired
    have different : other ≠ engine := by
      rintro rfl
      obtain ⟨_, _, _, owning⟩ := owning
      rw [owning] at acquired
      contradiction
    rw [acted.others other different]
    exact covered.acquired other acquisition acquired
  elsewhere := by
    intro holder holds snapshot taken other different position member
    rw [acted.ownership] at holds
    by_cases mine : holder = engine
    · subst mine
      rw [acted.others other different] at member
      rcases acted.snapshot snapshot taken with before | rfl
      · exact covered.elsewhere holder holds snapshot before other different
          position member
      · exact (covered.valid other).bound position member
    · rw [acted.others holder mine] at taken
      by_cases actor : other = engine
      · subst actor
        rcases acted.inbox position member with before | handed
        · exact covered.elsewhere holder holds snapshot taken other different
            position before
        · exact holderFirst holder holds mine snapshot taken position handed
      · rw [acted.others other actor] at member
        exact covered.elsewhere holder holds snapshot taken other different
          position member
  done := by
    intro holder holds snapshot taken position acknowledged
    rw [acted.ownership] at holds
    by_cases mine : holder = engine
    · subst mine
      rcases acted.acknowledged position acknowledged with
        before | ⟨-, executed⟩
      · rcases acted.snapshot snapshot taken with earlier | rfl
        · rcases covered.done holder holds snapshot earlier position before
            with inside | executed
          · exact .inl inside
          · exact .inr (acted.executed position executed)
        · exact .inl (covered.acknowledged position before)
      · exact .inr (acted.executed position executed)
    · rw [acted.others holder mine] at taken ⊢
      rcases acted.acknowledged position acknowledged with before | ⟨inbox, -⟩
      · exact covered.done holder holds snapshot taken position before
      · exact .inl (covered.elsewhere holder holds snapshot taken engine
          (Ne.symm mine) position inbox)

theorem covered_step (takeover : Takeover) (input : TakeoverInput)
    (covered : takeover.Covered)
    (holderFirst : takeover.HolderFirst input) :
    (takeover.step input).Covered := by
  cases input with
  | ownership input =>
      simp only [Takeover.step]
      split
      · exact covered
      · exact covered_control covered input
  | append => exact covered_append covered
  | act engine action =>
      simp only [Takeover.step]
      split
      · rename_i acquisition token canceled owning
        exact covered_acted covered ⟨_, _, _, owning⟩
          (acted_act covered.pending (covered.valid engine) action)
          holderFirst
      · exact covered

private theorem nothingMissing_of_covered (covered : takeover.Covered) :
    takeover.NothingMissing := by
  intro holder holds complete _ position acknowledged
  obtain ⟨snapshot, taken, replayed⟩ := Progress.snapshot_of_complete complete
  rcases covered.done holder holds snapshot taken position acknowledged with
    inside | executed
  · rw [← replayed] at inside
    exact (covered.valid holder).replayed position inside
  · exact executed

end Covered

/-- If the group hands nothing newer than its replay to anybody but the holder
of the lease, the holder misses no acknowledged entry. -/
theorem takeover_nothingMissing (inputs : List TakeoverInput)
    (holderFirst : Along Takeover.step Takeover.HolderFirst Takeover.start
      inputs) :
    (Takeover.start.run inputs).NothingMissing :=
  nothingMissing_of_covered
    (invariant_runFrom Takeover.Covered covered_step covered_start holderFirst)

def takes (engine : String) (replays : List TakeoverInput) :
    List TakeoverInput :=
  [.ownership (.start engine), .ownership (.acquire engine .answered),
    .ownership (.next engine .answered), .act engine (.range true)] ++
    replays ++ [.act engine .replay, .act engine (.claim [])]

/-- The old owner executes and acknowledges an entry before the new one reads
the stream. -/
theorem nothingMissing_replayed :
    (Takeover.start.run
      (takes "engine-0" [] ++
        [.append, .act "engine-0" (.deliver 1 .answered),
          .act "engine-0" .execute, .ownership .expire,
          .act "engine-0" (.acknowledge .answered)] ++
        takes "engine-1" [.act "engine-1" .replay])).acknowledged = [0] ∧
    (Takeover.start.run
      (takes "engine-0" [] ++
        [.append, .act "engine-0" (.deliver 1 .answered),
          .act "engine-0" .execute, .ownership .expire,
          .act "engine-0" (.acknowledge .answered)] ++
        takes "engine-1" [.act "engine-1" .replay])).NothingMissing :=
  ⟨by decide, takeover_nothingMissing _ (by decide)⟩

/-- The entry is added after the new owner has read the stream, and the group
hands it to the old owner, which has not noticed the loss of its lease. -/
theorem oldOwner_keepsEntry :
    ¬ (Takeover.start.run
      (takes "engine-0" [] ++ [.ownership .expire] ++ takes "engine-1" [] ++
        [.append, .act "engine-0" (.deliver 1 .answered),
          .act "engine-0" .execute,
          .act "engine-0" (.acknowledge .answered)])).NothingMissing := by
  decide

end Predix
