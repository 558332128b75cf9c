import Predix.Concurrency.Streams

namespace Predix

open Data Word

/-! The streams of one engine in any interleaving, each compared with itself
run alone. -/

section Streams

variable {router : Router} {streams : List (List Input)}
  (routed : Routed router streams) (separate : Separate streams)

def Lane.orderID? (lane : Lane) : Option String :=
  lane.waiting.map (·.2.id)

inductive Advancing (engine : Engine) (lane : Lane) : Engine × Lane → Prop
  | idle : Advancing engine lane (engine, lane)
  | begun (input : Input) (rest : List Input)
      (isLane : lane = ⟨input :: rest, none⟩) :
      Advancing engine lane
        ((beginCommand engine input).1,
          ⟨rest, (beginCommand engine input).2.command? input⟩)
  | finished (input : Input) (order : Order) (rest : List Input)
      (isLane : lane = ⟨rest, some (input, order)⟩) :
      Advancing engine lane
        ((announceAndMatch engine order
          input.surroundings.orderCreatedEmitted).engine, ⟨rest, none⟩)

theorem advance_advancing (engine : Engine) (lane : Lane) :
    Advancing engine lane (lane.advance engine) := by
  obtain ⟨rest, waiting⟩ := lane
  cases waiting with
  | some command => exact .finished command.1 command.2 rest rfl
  | none =>
      cases rest with
      | nil => exact .idle
      | cons input rest => exact .begun input rest rfl

theorem command?_orderID {begun : Begun} {input : Input} {rest : List Input}
    {id : String}
    (waits : Lane.orderID? ⟨rest, begun.command? input⟩ = some id) :
    ∃ order, begun = .registered order ∧ order.id = id := by
  cases begun with
  | answered response => contradiction
  | registered order =>
      cases waits
      exact ⟨order, rfl, rfl⟩

structure Shared.Sound (streams : List (List Input)) (shared : Shared) :
    Prop where
  tidy : Tidy shared.engine fun id =>
    ∃ partitionID, (shared.lanes partitionID).orderID? = some id
  descends : shared.engine.Descends fun order =>
    ∃ partitionID, order ∈ ordersIn (streamOf streams partitionID)
  waits : ∀ {partitionID id},
    (shared.lanes partitionID).orderID? = some id →
      id ∈ orderIDsIn (streamOf streams partitionID)
  rests : ∀ {partitionID input}, input ∈ (shared.lanes partitionID).rest →
    input ∈ streamOf streams partitionID

private theorem move_lanes (shared : Shared) (partitionID : Nat)
    (advanced : Engine × Lane) (other : Nat) :
    (other = partitionID ∧
        (shared.move partitionID advanced).lanes other = advanced.2) ∨
      (other ≠ partitionID ∧
        (shared.move partitionID advanced).lanes other =
          shared.lanes other) := by
  cases Decidable.em (other = partitionID) with
  | inl same =>
      subst same
      exact .inl ⟨rfl, Function.update_self _ _ _⟩
  | inr different =>
      exact .inr ⟨different, Function.update_of_ne different _ _⟩

private theorem Shared.Sound.move {shared : Shared}
    (sound : shared.Sound streams)
    {partitionID : Nat} {advanced : Engine × Lane}
    (tidy : Tidy advanced.1 fun id =>
      (∃ other, other ≠ partitionID ∧
        (shared.lanes other).orderID? = some id) ∨
        advanced.2.orderID? = some id)
    (descends : advanced.1.Descends fun order =>
      ∃ other, order ∈ ordersIn (streamOf streams other))
    (waits : ∀ {id}, advanced.2.orderID? = some id →
      id ∈ orderIDsIn (streamOf streams partitionID))
    (rests : ∀ {input}, input ∈ advanced.2.rest →
      input ∈ streamOf streams partitionID) :
    (shared.move partitionID advanced).Sound streams := by
  have lanes := move_lanes shared partitionID advanced
  refine ⟨?_, descends, ?_, ?_⟩
  · apply tidy.waitsFor
    rintro id ⟨other, isWaiting⟩
    rcases lanes other with ⟨_, laneIs⟩ | ⟨different, laneIs⟩
    · rw [laneIs] at isWaiting
      exact .inr isWaiting
    · rw [laneIs] at isWaiting
      exact .inl ⟨other, different, isWaiting⟩
  · intro other id isWaiting
    rcases lanes other with ⟨rfl, laneIs⟩ | ⟨_, laneIs⟩
    · rw [laneIs] at isWaiting
      exact waits isWaiting
    · rw [laneIs] at isWaiting
      exact sound.waits isWaiting
  · intro other input member
    rcases lanes other with ⟨rfl, laneIs⟩ | ⟨_, laneIs⟩
    · rw [laneIs] at member
      exact rests member
    · rw [laneIs] at member
      exact sound.rests member

include separate in
theorem Shared.sound_step {shared : Shared} (sound : shared.Sound streams)
    (partitionID : Nat) : (shared.step partitionID).Sound streams := by
  have advancing := advance_advancing shared.engine
    (shared.lanes partitionID)
  unfold Shared.step
  generalize (shared.lanes partitionID).advance shared.engine = advanced
    at advancing ⊢
  cases advancing with
  | idle =>
      apply sound.move _ sound.descends sound.waits sound.rests
      apply sound.tidy.waitsFor
      rintro id (⟨other, _, old⟩ | own)
      · exact ⟨other, old⟩
      · exact ⟨partitionID, own⟩
  | begun input rest isLane =>
      have member : input ∈ streamOf streams partitionID :=
        sound.rests (by rw [isLane]; exact List.mem_cons_self)
      apply sound.move
      · apply (tidy_begin sound.tidy input).waitsFor
        rintro id (⟨other, _, old⟩ | own)
        · exact .inl ⟨other, old⟩
        · obtain ⟨order, begun, rfl⟩ := command?_orderID own
          rw [begun]
          exact .inr (List.mem_singleton.mpr rfl)
      · apply descends_begin sound.tidy sound.descends
        intro order submitted
        exact ⟨partitionID,
          List.mem_filterMap.mpr ⟨input, member, submitted⟩⟩
      · intro id own
        obtain ⟨order, begun, rfl⟩ := command?_orderID own
        exact List.mem_flatMap.mpr ⟨input, member, begin_orderID begun⟩
      · intro later isLater
        apply sound.rests
        rw [isLane]
        exact List.mem_cons_of_mem input isLater
  | finished input order rest isLane =>
      have own : (shared.lanes partitionID).orderID? = some order.id := by
        rw [isLane]
        rfl
      apply sound.move
      · apply tidy_announceAndMatch sound.tidy ⟨partitionID, own⟩
        · rintro id (⟨other, _, old⟩ | impossible)
          · exact ⟨other, old⟩
          · contradiction
        · rintro (⟨other, different, old⟩ | impossible)
          · exact different
              (orderID_unique separate (sound.waits old) (sound.waits own))
          · contradiction
      · exact descends_announceAndMatch sound.tidy ⟨partitionID, own⟩ _
          sound.descends
      · intro id impossible
        contradiction
      · intro later isLater
        apply sound.rests
        rw [isLane]
        exact isLater

/-! One stream among all, and alone. -/

/-- The starting balance of a user will not be granted any more. -/
def Settled (streams : List (List Input)) (processed : List Input)
    (userID : String) : Prop :=
  userID ∈ fundedIn streams.flatten → userID ∈ fundedIn processed

/-- The lane with its current command carried out to the end. -/
def Lane.completed (lane : Lane) (engine : Engine) : Engine :=
  match lane.waiting with
  | none => engine
  | some (input, order) =>
      (announceAndMatch engine order
        input.surroundings.orderCreatedEmitted).engine

/-- Another stream may have granted a starting balance that this one has not
come to yet. -/
def FundedAhead (alone engine : Engine) (userID : String) : Prop :=
  alone.balances.lookup userID = engine.balances.lookup userID ∨
    alone.balances.lookup userID = none ∧
      engine.balances.lookup userID = some ⟨defaultStartingBalance, 0⟩

/-- The engine of all streams has, in the part of one stream, what the engine
of this stream alone has. -/
structure Mirrors (router : Router) (streams : List (List Input))
    (partitionID : Nat) (lane : Lane) (processed : List Input)
    (alone engine : Engine) : Prop where
  split : streamOf streams partitionID = processed ++ lane.rest
  same : alone.SameOn
    (router.lane streams partitionID (Settled streams processed)) engine
  unsettled : ∀ userID, ¬ Settled streams processed userID →
    (∃ order ∈ ordersIn (streamOf streams partitionID),
      order.userID = userID) → FundedAhead alone engine userID
  funded : ∀ userID ∈ fundedIn processed,
    alone.balances.lookup userID ≠ none
  tidy : Tidy alone fun id => lane.orderID? = some id
  descends : alone.Descends fun order =>
    order ∈ ordersIn (streamOf streams partitionID) ∧
      Settled streams processed order.userID

section Mirrors

variable {partitionID : Nat} {lane : Lane} {processed : List Input}
  {alone engine : Engine}
  (mirrors : Mirrors router streams partitionID lane processed alone engine)

include mirrors

private theorem Mirrors.frame {later : Engine}
    (elsewhere : engine.SameOn
      (router.lane streams partitionID fun _ => True) later) :
    Mirrors router streams partitionID lane processed alone later where
  split := mirrors.split
  same := mirrors.same.trans (elsewhere.mono
    ⟨fun inside => inside, fun inside => inside,
      fun inside => ⟨trivial, inside.2⟩, fun inside => inside⟩)
  unsettled := by
    intro userID ahead isUser
    have kept := elsewhere.balances userID ⟨trivial, isUser⟩
    unfold FundedAhead
    rw [← kept]
    exact mirrors.unsettled userID ahead isUser
  funded := mirrors.funded
  tidy := mirrors.tidy
  descends := mirrors.descends

private theorem Mirrors.fundElsewhere {userID : String}
    (granted : userID ≠ "" → userID ∈ fundedIn streams.flatten) :
    Mirrors router streams partitionID lane processed alone
      (engine.fund userID) := by
  have kept := fund_sameOn engine userID
  by_cases named : userID = ""
  · have idle : engine.fund userID = engine := if_pos (.inl named)
    rw [idle]
    exact mirrors
  have lookedUp := lookup_fund engine named
  refine { mirrors with same := ?_, unsettled := ?_ }
  · refine ⟨mirrors.same.orders.trans (kept.orders.mono fun _ => trivial),
      mirrors.same.markets.trans (kept.markets.mono fun _ => trivial), ?_,
      mirrors.same.positions.trans (kept.positions.mono fun _ => trivial)⟩
    intro other inside
    rw [mirrors.same.balances other inside]
    cases Decidable.em (other = userID) with
    | inl isUser =>
        subst isUser
        -- this stream has come to the grant, so the entry is there
        have present := mirrors.funded other (inside.1 (granted named))
        rw [mirrors.same.balances other inside] at present
        obtain ⟨balance, found⟩ := Option.ne_none_iff_exists'.mp present
        rw [lookedUp, found]
        rfl
    | inr different => exact kept.balances other different
  · intro other ahead isUser
    have before := mirrors.unsettled other ahead isUser
    unfold FundedAhead at before ⊢
    cases Decidable.em (other = userID) with
    | inl isUser =>
        subst isUser
        rw [lookedUp]
        rcases before with agree | ⟨absent, default⟩
        · cases found : engine.balances.lookup other with
          | none => exact .inr ⟨agree.trans found, rfl⟩
          | some balance => exact .inl (agree.trans found)
        · rw [default]
          exact .inr ⟨absent, rfl⟩
    | inr different =>
        rw [← kept.balances other different]
        exact before

/-- What the stream itself does, other than granting a starting balance. -/
theorem Mirrors.change (taken : List Input) (next : Lane)
    {change : Engine → Engine}
    (isLocal : LocalTo
      (router.lane streams partitionID (Settled streams processed)) change)
    (split : streamOf streams partitionID = (processed ++ taken) ++ next.rest)
    (noGrant : ∀ input ∈ taken, input.funds? = none)
    (kept : alone.balances.KeptIn (change alone).balances)
    (tidy : Tidy (change alone) fun id => next.orderID? = some id)
    (descends : (change alone).Descends fun order =>
      order ∈ ordersIn (streamOf streams partitionID) ∧
        Settled streams processed order.userID) :
    Mirrors router streams partitionID next (processed ++ taken)
      (change alone) (change engine) := by
  have sameGrants : fundedIn (processed ++ taken) = fundedIn processed := by
    unfold fundedIn
    rw [List.filterMap_append, List.filterMap_eq_nil_iff.mpr noGrant,
      List.append_nil]
  have sameSettled : Settled streams (processed ++ taken) =
      Settled streams processed := by
    unfold Settled
    rw [sameGrants]
  refine ⟨split, ?_, ?_, ?_, tidy, ?_⟩
  · rw [sameSettled]
    exact isLocal.inside mirrors.same
  · rw [sameSettled]
    intro userID ahead isUser
    have outside : ¬ (router.lane streams partitionID
        (Settled streams processed)).users userID :=
      fun inside => ahead inside.1
    have before := mirrors.unsettled userID ahead isUser
    unfold FundedAhead at before ⊢
    rw [← (isLocal.frame alone).balances userID outside,
      ← (isLocal.frame engine).balances userID outside]
    exact before
  · rw [sameGrants]
    intro userID granted absent
    exact mirrors.funded userID granted (kept userID absent)
  · rw [sameSettled]
    exact descends

private theorem Mirrors.ahead {userID : String}
    (isUser : ∃ order ∈ ordersIn (streamOf streams partitionID),
      order.userID = userID) : FundedAhead alone engine userID := by
  by_cases settled : Settled streams processed userID
  · exact .inl (mirrors.same.balances userID ⟨settled, isUser⟩)
  · exact mirrors.unsettled userID settled isUser

private theorem Mirrors.fund {next : Lane} {input : Input} {userID : String}
    (named : userID ≠ "") (grants : input.funds? = some userID)
    (nextIdle : next.orderID? = none)
    (split : streamOf streams partitionID = (processed ++ [input]) ++ next.rest) :
    Mirrors router streams partitionID next (processed ++ [input])
      (alone.fund userID) (engine.fund userID) := by
  have aloneKept := fund_sameOn alone userID
  have engineKept := fund_sameOn engine userID
  have moreGrants : fundedIn (processed ++ [input]) =
      fundedIn processed ++ [userID] := by
    unfold fundedIn
    rw [List.filterMap_append]
    simp only [List.filterMap_cons, grants, List.filterMap_nil]
  have still : ∀ {other}, Settled streams processed other →
      Settled streams (processed ++ [input]) other := by
    intro other settled granted
    rw [moreGrants]
    exact List.mem_append_left _ (settled granted)
  have already : ∀ {other}, other ≠ userID →
      Settled streams (processed ++ [input]) other →
        Settled streams processed other := by
    intro other different settled granted
    have member := settled granted
    rw [moreGrants] at member
    rcases List.mem_append.mp member with old | new
    · exact old
    · exact absurd (List.mem_singleton.mp new) different
  refine ⟨split, ⟨?_, ?_, ?_, ?_⟩, ?_, ?_, ?_, ?_⟩
  · rw [fund_orders, fund_orders]
    exact mirrors.same.orders
  · rw [fund_markets, fund_markets]
    exact mirrors.same.markets
  · rintro other ⟨settled, isUser⟩
    cases Decidable.em (other = userID) with
    | inl same =>
        subst same
        rw [lookup_fund alone named, lookup_fund engine named]
        rcases mirrors.ahead isUser with agree | ⟨absent, default⟩
        · rw [agree]
        · rw [absent, default]
          rfl
    | inr different =>
        rw [← aloneKept.balances other different,
          ← engineKept.balances other different]
        exact mirrors.same.balances other ⟨already different settled, isUser⟩
  · exact (aloneKept.positions.symm.mono fun _ => trivial).trans
      (mirrors.same.positions.trans (engineKept.positions.mono
        fun _ => trivial))
  · intro other ahead isUser
    have different : other ≠ userID := by
      rintro rfl
      apply ahead
      intro _
      rw [moreGrants]
      exact List.mem_append_right _ (List.mem_singleton.mpr rfl)
    have before := mirrors.unsettled other (fun settled => ahead (still settled))
      isUser
    unfold FundedAhead at before ⊢
    rw [← aloneKept.balances other different,
      ← engineKept.balances other different]
    exact before
  · intro other granted
    rw [moreGrants] at granted
    cases Decidable.em (other = userID) with
    | inl same =>
        rw [same, lookup_fund alone named]
        simp
    | inr different =>
        rw [← aloneKept.balances other different]
        apply mirrors.funded
        rcases List.mem_append.mp granted with old | new
        · exact old
        · exact absurd (List.mem_singleton.mp new) different
  · apply (mirrors.tidy.of_ledger (fund_markets alone userID)
      (fund_orders alone userID)).waitsFor
    intro id waits
    rw [nextIdle] at waits
    contradiction
  · intro id order present
    rw [fund_orders] at present
    obtain ⟨submitted, ⟨member, settled⟩, continues⟩ := mirrors.descends present
    exact ⟨submitted, ⟨member, still settled⟩, continues⟩

include routed in
theorem Mirrors.closed : alone.ClosedIn
    (router.lane streams partitionID (Settled streams processed)) := by
  intro id order present _
  obtain ⟨submitted, ⟨member, settled⟩, continues⟩ := mirrors.descends present
  exact continues.within (submitted_within routed member settled)

end Mirrors

/-! The sections of the other streams. -/

section Steps

variable {shared : Shared} (sound : shared.Sound streams)

include routed separate sound in
theorem waiting_event {partitionID : Nat} {id : String}
    (waits : (shared.lanes partitionID).orderID? = some id) :
    ∃ order, shared.engine.orders.lookup id = some order ∧
      router.partitionFor order.eventID = partitionID := by
  obtain ⟨order, present⟩ := Option.ne_none_iff_exists'.mp
    (sound.tidy.registered ⟨partitionID, waits⟩)
  refine ⟨order, present, ?_⟩
  obtain ⟨submitted, ⟨other, member⟩, continues⟩ := sound.descends present
  have within : submitted.Within (router.lane streams other fun _ => True) :=
    submitted_within routed member trivial
  have own := within.id
  rw [← continues.id, sound.tidy.keyed id order present] at own
  rw [continues.eventID, ← orderID_unique separate own (sound.waits waits)]
  exact within.event

theorem streamOf_mem {partitionID : Nat} {input : Input}
    (member : input ∈ streamOf streams partitionID) :
    streamOf streams partitionID ∈ streams := by
  have inRange := lt_of_mem_streamOf member
  unfold streamOf
  rw [List.getD_eq_getElem?_getD, List.getElem?_eq_getElem inRange]
  exact List.getElem_mem inRange

private theorem flatten_granted {partitionID : Nat} {input : Input}
    {userID : String}
    (member : input ∈ streamOf streams partitionID)
    (grants : input.funds? = some userID) :
    userID ∈ fundedIn streams.flatten :=
  List.mem_filterMap.mpr ⟨input,
    List.mem_flatten.mpr ⟨_, streamOf_mem member, member⟩, grants⟩

include routed separate sound in
private theorem mirrors_other {partitionID other : Nat}
    (different : other ≠ partitionID)
    {processed : List Input} {alone : Engine}
    (mirrors : Mirrors router streams partitionID (shared.lanes partitionID)
      processed alone shared.engine) :
    Mirrors router streams partitionID
      ((shared.step other).lanes partitionID) processed alone
      (shared.step other).engine := by
  have advancing := advance_advancing shared.engine (shared.lanes other)
  unfold Shared.step
  generalize (shared.lanes other).advance shared.engine = advanced
    at advancing ⊢
  have lanes : (shared.move other advanced).lanes partitionID =
      shared.lanes partitionID :=
    Function.update_of_ne different.symm _ _
  rw [lanes]
  have apart : (router.lane streams partitionID fun _ => True).Sub
      (router.lane streams other fun _ => True).outside :=
    lane_apart separate different.symm _ _
  have framed : ∀ {change}, LocalTo
      (router.lane streams other fun _ => True) change →
      advanced.1 = change shared.engine →
        Mirrors router streams partitionID (shared.lanes partitionID) processed
          alone advanced.1 := by
    intro change isLocal engineIs
    rw [engineIs]
    exact mirrors.frame ((isLocal.frame shared.engine).mono apart)
  have closed : shared.engine.ClosedIn
      (router.lane streams other fun _ => True) :=
    closed_of_descends routed sound.descends other
  cases advancing with
  | idle => exact mirrors
  | begun input rest isLane =>
      have member : input ∈ streamOf streams other :=
        sound.rests (by rw [isLane]; exact List.mem_cons_self)
      by_cases funding : ∃ userID, input.command = .userCreated (some userID)
      · obtain ⟨userID, requested⟩ := funding
        obtain ⟨response, begun⟩ := beginCommand_fund shared.engine requested
        simp only [begun]
        apply mirrors.fundElsewhere
        intro named
        apply flatten_granted member
        simp only [Input.funds?, requested, if_neg named]
      · have inside := begin_inside routed closed member
          (fun _ _ => trivial) (fun userID isFunding => funding
            ⟨userID, isFunding⟩)
        obtain ⟨change, isLocal, engineIs, _⟩ := beginCommand_local
          (.refl _ shared.engine) sound.tidy.keyed inside
        exact framed isLocal engineIs
  | finished input order rest isLane =>
      have own : (shared.lanes other).orderID? = some order.id := by
        rw [isLane]
        rfl
      obtain ⟨found, present, event⟩ := waiting_event routed separate sound own
      have inside := finishFootprint_inside closed sound.tidy ⟨other, own⟩
        present event
      obtain ⟨change, isLocal, engineIs, _⟩ := announceAndMatch_local
        sound.tidy ⟨other, own⟩ input.surroundings.orderCreatedEmitted
        (.refl _ shared.engine) sound.tidy ⟨other, own⟩ inside
      exact framed isLocal engineIs

/-! The sections of the stream itself. -/

theorem funded_run (funded : List String) (stream : List Input) :
    runFrom (fun funded (input : Input) => funded ++ input.funds?.toList)
      funded stream = funded ++ fundedIn stream := by
  unfold fundedIn
  induction stream generalizing funded with
  | nil => exact (List.append_nil funded).symm
  | cons input stream induction =>
      change runFrom _ (funded ++ input.funds?.toList) stream = _
      rw [induction, List.append_assoc, List.filterMap_cons]
      cases input.funds? <;> rfl

include separate in
private theorem settled_of_submitted {partitionID : Nat}
    {processed rest : List Input}
    {input : Input}
    (split : streamOf streams partitionID = processed ++ input :: rest)
    {order : Order} (submitted : input.order? = some order) :
    Settled streams processed order.userID := by
  have member : input ∈ streamOf streams partitionID := by
    rw [split]
    simp
  have first := separate.fundsFirst _ (streamOf_mem member)
  unfold FundsFirst at first
  rw [split, along_append, funded_run] at first
  exact first.2.1 order submitted

private theorem command?_alike {left right : Begun} (alike : left.Alike right)
    (input : Input) : left.command? input = right.command? input := by
  cases left with
  | answered leftResponse =>
      cases right with
      | answered rightResponse => rfl
      | registered order => exact alike.elim
  | registered leftOrder =>
      cases right with
      | answered response => exact alike.elim
      | registered rightOrder =>
          rw [show leftOrder = rightOrder from alike]

private theorem completed_begin (engine : Engine) (input : Input)
    (rest : List Input) :
    Lane.completed ⟨rest, (beginCommand engine input).2.command? input⟩
      (beginCommand engine input).1 = (engine.step input).engine := by
  have beginning := beginCommand_beginning engine input
  generalize beginCommand engine input = result at beginning ⊢
  cases beginning with
  | answered unadmitted => rfl
  | registered order market submitted fresh hasMarket affords completed =>
      rw [completed]
      rfl

def runAlone (balances positions : Accounts String) (stream : List Input) :
    Engine :=
  (runSeeded balances positions stream).engine

private theorem runAlone_append (balances positions : Accounts String)
    (stream : List Input) (input : Input) :
    runAlone balances positions (stream ++ [input]) =
      ((runAlone balances positions stream).step input).engine := by
  simp only [runAlone, runSeeded, History.run, runFrom_append]
  rfl

section Own

variable {partitionID : Nat} {processed rest : List Input}
  {alone : Engine} {input : Input}

include routed separate in
private theorem mirrors_begin
    (isLane : shared.lanes partitionID = ⟨input :: rest, none⟩)
    (mirrors : Mirrors router streams partitionID (shared.lanes partitionID)
      processed alone shared.engine) :
    Mirrors router streams partitionID
      ⟨rest, (beginCommand shared.engine input).2.command? input⟩
      (processed ++ [input]) (beginCommand alone input).1
      (beginCommand shared.engine input).1 ∧
    (beginCommand shared.engine input).2.command? input =
      (beginCommand alone input).2.command? input := by
  have split := mirrors.split
  rw [isLane] at split
  have member : input ∈ streamOf streams partitionID := by
    rw [split]
    simp
  have appended : streamOf streams partitionID =
      (processed ++ [input]) ++ rest := by
    rw [split, List.append_assoc]
    rfl
  by_cases funding : ∃ userID, input.command = .userCreated (some userID)
  · obtain ⟨userID, requested⟩ := funding
    obtain ⟨response, begun⟩ := beginCommand_fund shared.engine requested
    obtain ⟨aloneResponse, aloneBegun⟩ := beginCommand_fund alone requested
    simp only [begun, aloneBegun]
    refine ⟨?_, rfl⟩
    by_cases named : userID = ""
    · have sharedIdle : shared.engine.fund userID = shared.engine :=
        if_pos (.inl named)
      have aloneIdle : alone.fund userID = alone := if_pos (.inl named)
      rw [sharedIdle, aloneIdle]
      apply mirrors.change [input] ⟨rest, none⟩ .id appended
      · intro taken isTaken
        rw [List.mem_singleton.mp isTaken]
        simp only [Input.funds?, requested, if_pos named]
      · exact .refl _
      · apply mirrors.tidy.waitsFor
        intro id impossible
        contradiction
      · exact mirrors.descends
    · apply mirrors.fund named _ rfl appended
      simp only [Input.funds?, requested, if_neg named]
  · have settled : ∀ order ∈ input.order?,
        Settled streams processed order.userID :=
      fun order submitted => settled_of_submitted separate split submitted
    have closed : alone.ClosedIn
        (router.lane streams partitionID (Settled streams processed)) :=
      mirrors.closed routed
    have inside := begin_inside routed closed member settled
      (fun userID isFunding => funding ⟨userID, isFunding⟩)
    obtain ⟨change, isLocal, aloneIs, sharedIs, alike⟩ := beginCommand_local
      mirrors.same mirrors.tidy.keyed inside
    have commands := (command?_alike alike input).symm
    refine ⟨?_, commands⟩
    have kept := keptIn_begin alone input
    have tidy := tidy_begin mirrors.tidy input
    have descends : (beginCommand alone input).1.Descends fun order =>
        order ∈ ordersIn (streamOf streams partitionID) ∧
          Settled streams processed order.userID := by
      apply descends_begin mirrors.tidy mirrors.descends
      intro order submitted
      exact ⟨List.mem_filterMap.mpr ⟨input, member, submitted⟩,
        settled order submitted⟩
    have waits : Tidy (beginCommand alone input).1 fun id =>
        Lane.orderID? ⟨rest,
          (beginCommand shared.engine input).2.command? input⟩ = some id := by
      apply tidy.waitsFor
      intro id isWaiting
      rw [commands] at isWaiting
      obtain ⟨order, begun, rfl⟩ := command?_orderID isWaiting
      rw [begun]
      exact .inr (List.mem_singleton.mpr rfl)
    rw [aloneIs] at kept descends waits ⊢
    rw [sharedIs]
    apply mirrors.change [input] _ isLocal appended _ kept waits descends
    intro taken isTaken
    rw [List.mem_singleton.mp isTaken]
    unfold Input.funds?
    split
    · rename_i userID requested
      exact absurd ⟨userID, requested⟩ funding
    · rfl

include routed separate sound in
private theorem mirrors_finish {order : Order}
    (isLane : shared.lanes partitionID = ⟨rest, some (input, order)⟩)
    (mirrors : Mirrors router streams partitionID (shared.lanes partitionID)
      processed alone shared.engine) :
    Mirrors router streams partitionID ⟨rest, none⟩ processed
      (announceAndMatch alone order
        input.surroundings.orderCreatedEmitted).engine
      (announceAndMatch shared.engine order
        input.surroundings.orderCreatedEmitted).engine := by
  have own : (shared.lanes partitionID).orderID? = some order.id := by
    rw [isLane]
    rfl
  have closed : alone.ClosedIn
      (router.lane streams partitionID (Settled streams processed)) :=
    mirrors.closed routed
  obtain ⟨found, present, event⟩ := waiting_event routed separate sound own
  have alonePresent : alone.orders.lookup order.id = some found := by
    rw [mirrors.same.orders order.id (sound.waits own)]
    exact present
  have inside := finishFootprint_inside closed mirrors.tidy own alonePresent
    event
  obtain ⟨change, isLocal, aloneIs, sharedIs⟩ := announceAndMatch_local
    mirrors.tidy own input.surroundings.orderCreatedEmitted mirrors.same
    sound.tidy ⟨partitionID, own⟩ inside
  have kept : alone.balances.KeptIn (announceAndMatch alone order
      input.surroundings.orderCreatedEmitted).engine.balances :=
    keptIn_announceAndMatch mirrors.tidy _
  have descends : (announceAndMatch alone order
      input.surroundings.orderCreatedEmitted).engine.Descends fun order =>
        order ∈ ordersIn (streamOf streams partitionID) ∧
          Settled streams processed order.userID :=
    descends_announceAndMatch mirrors.tidy own _ mirrors.descends
  have tidy : Tidy (announceAndMatch alone order
      input.surroundings.orderCreatedEmitted).engine fun id =>
        Lane.orderID? ⟨rest, none⟩ = some id := by
    apply tidy_announceAndMatch mirrors.tidy own
    · intro id impossible
      contradiction
    · intro impossible
      contradiction
  have split := mirrors.split
  rw [isLane, ← List.append_nil processed] at split
  rw [aloneIs] at kept descends tidy ⊢
  rw [sharedIs, ← List.append_nil processed]
  exact mirrors.change [] ⟨rest, none⟩ isLocal split (by simp) kept tidy
    descends

end Own

/-- The engine of all streams and the one of a single stream, which has come as
far. -/
def Shared.Follows (router : Router) (balances positions : Accounts String)
    (streams : List (List Input)) (partitionID : Nat) (shared : Shared) :
    Prop :=
  ∃ processed alone,
    Mirrors router streams partitionID (shared.lanes partitionID) processed
      alone shared.engine ∧
    (shared.lanes partitionID).completed alone =
      runAlone balances positions processed

include routed separate sound in
theorem follows_step {balances positions : Accounts String}
    {partitionID : Nat}
    (follows : shared.Follows router balances positions streams partitionID)
    (moved : Nat) :
    (shared.step moved).Follows router balances positions streams
      partitionID := by
  obtain ⟨processed, alone, mirrors, result⟩ := follows
  cases Decidable.em (moved = partitionID) with
  | inr different =>
      have lanes : (shared.step moved).lanes partitionID =
          shared.lanes partitionID :=
        Function.update_of_ne (Ne.symm different) _ _
      refine ⟨processed, alone,
        mirrors_other routed separate sound different mirrors, ?_⟩
      rw [lanes]
      exact result
  | inl same =>
      subst same
      have advancing := advance_advancing shared.engine (shared.lanes moved)
      unfold Shared.step Shared.Follows
      generalize (shared.lanes moved).advance shared.engine = advanced
        at advancing ⊢
      have lanes : (shared.move moved advanced).lanes moved = advanced.2 :=
        Function.update_self _ _ _
      rw [lanes]
      cases advancing with
      | idle => exact ⟨processed, alone, mirrors, result⟩
      | begun input rest isLane =>
          obtain ⟨began, commands⟩ :=
            mirrors_begin routed separate isLane mirrors
          refine ⟨processed ++ [input], _, began, ?_⟩
          rw [isLane] at result
          rw [runAlone_append, ← result, commands]
          exact completed_begin alone input rest
      | finished input order rest isLane =>
          refine ⟨processed, _,
            mirrors_finish routed separate sound isLane mirrors, ?_⟩
          rw [isLane] at result
          exact result

end Steps

theorem Shared.sound_start (balances positions : Accounts String) :
    Shared.Sound streams
      ⟨Engine.seeded balances positions,
        fun partitionID => ⟨streamOf streams partitionID, none⟩⟩ where
  tidy := by
    apply (tidy_seeded balances positions).waitsFor
    rintro id ⟨_, impossible⟩
    contradiction
  descends := by
    intro id order present
    simp [Engine.seeded] at present
  waits := by
    intro partitionID id impossible
    contradiction
  rests := fun member => member

theorem follows_start (balances positions : Accounts String)
    (partitionID : Nat) :
    Shared.Follows router balances positions streams partitionID
      ⟨Engine.seeded balances positions,
        fun partitionID => ⟨streamOf streams partitionID, none⟩⟩ := by
  refine ⟨[], Engine.seeded balances positions, ?_, rfl⟩
  refine ⟨rfl, .refl _ _, fun _ _ _ => .inl rfl, ?_, ?_, ?_⟩
  · intro userID impossible
    contradiction
  · apply (tidy_seeded balances positions).waitsFor
    intro id impossible
    contradiction
  · intro id order present
    simp [Engine.seeded] at present

end Streams

/-- If the streams share no orders and no accounts, each runs as it would
alone. -/
theorem partition_isolated {router : Router} {streams : List (List Input)}
    (routed : Routed router streams) (separate : Separate streams)
    (balances positions : Accounts String) {schedule : List Nat}
    {partitionID : Nat}
    (done : (runShared balances positions streams schedule).lanes
      partitionID = ⟨[], none⟩) :
    router.Agree partitionID
      (runShared balances positions streams schedule).engine
      (runSeeded balances positions (streamOf streams partitionID)).engine := by
  obtain ⟨sound, processed, alone, mirrors, result⟩ := always_runFrom
    (fun shared : Shared => shared.Sound streams ∧
      shared.Follows router balances positions streams partitionID)
    (fun _ moved both => ⟨Shared.sound_step separate both.1 moved,
      follows_step routed separate both.1 both.2 moved⟩)
    ⟨Shared.sound_start balances positions,
      follows_start balances positions partitionID⟩ schedule
  change (runShared balances positions streams schedule).Sound streams
    at sound
  change Mirrors router streams partitionID
    ((runShared balances positions streams schedule).lanes partitionID)
    processed alone (runShared balances positions streams schedule).engine
    at mirrors
  change ((runShared balances positions streams schedule).lanes
    partitionID).completed alone = runAlone balances positions processed
    at result
  have split := mirrors.split
  rw [done, List.append_nil] at split
  rw [done, ← split] at result
  change alone = (runSeeded balances positions
    (streamOf streams partitionID)).engine at result
  rw [← result]
  constructor
  · intro eventID event
    exact (mirrors.same.markets eventID event).symm
  · intro id order event
    constructor
    · intro present
      have within := closed_of_descends routed sound.descends partitionID
        present event
      have own := within.id
      rw [sound.tidy.keyed id order present] at own
      rw [mirrors.same.orders id own]
      exact present
    · intro present
      have within := mirrors.closed routed present event
      have own := within.id
      rw [mirrors.tidy.keyed id order present] at own
      rw [← mirrors.same.orders id own]
      exact present

/-- Two users on two events. -/
theorem isolated_twoUsers :
    (newRouter 2).Agree 0
      (runShared ∅ ∅
        [[⟨.userCreated (some "u"), "", true⟩,
            ⟨.userCreated (some "v"), "", true⟩, .createEvent "a",
            .submit "o" "a" "u" "LIMIT" "YES" "BUY" 100 10000],
          [⟨.userCreated (some "u"), "", true⟩,
            ⟨.userCreated (some "v"), "", true⟩, .createEvent "b",
            .submit "p" "b" "v" "LIMIT" "YES" "BUY" 100 10000]]
        [1, 0, 1, 0, 0, 1, 0, 1, 1, 0]).engine
      (runSeeded ∅ ∅
        [⟨.userCreated (some "u"), "", true⟩,
          ⟨.userCreated (some "v"), "", true⟩, .createEvent "a",
          .submit "o" "a" "u" "LIMIT" "YES" "BUY" 100 10000]).engine :=
  partition_isolated (by decide) (by decide) ∅ ∅ (by decide)

/-- The user's order on the other partition has frozen the whole balance. -/
theorem sharedBalance_notIsolated :
    ∃ streams schedule, Routed (newRouter 2) streams ∧
      (∀ partitionID < 2,
        (runShared ∅ ∅ streams schedule).lanes partitionID = ⟨[], none⟩) ∧
      ¬ (newRouter 2).Agree 0 (runShared ∅ ∅ streams schedule).engine
        (runSeeded ∅ ∅ (streamOf streams 0)).engine := by
  refine ⟨[[⟨.userCreated (some "u"), "", true⟩, .createEvent "a",
      .submit "o" "a" "u" "LIMIT" "YES" "BUY" 100 10000],
    [⟨.userCreated (some "u"), "", true⟩, .createEvent "b",
      .submit "p" "b" "u" "LIMIT" "YES" "BUY" 100 10000]],
    [1, 1, 1, 1, 0, 0, 0], by decide, by decide, ?_⟩
  rintro ⟨_, orders⟩
  have alone : (runSeeded ∅ ∅
      [⟨.userCreated (some "u"), "", true⟩, .createEvent "a",
        .submit "o" "a" "u" "LIMIT" "YES" "BUY" 100 10000]).engine.orders.lookup
          "o" = some
        { id := "o"
          eventID := "a"
          userID := "u"
          orderType := .orderTypeLimit
          outcome := .outcomeYes
          side := .sideBuy
          quantity := 100
          filledQuantity := 0
          remainingQuantity := 100
          price := 10000
          status := .statusPending
          lockedFunds := 1000000 } := by
    decide
  have together := (orders "o" _ (by decide)).mpr alone
  revert together
  decide

end Predix
