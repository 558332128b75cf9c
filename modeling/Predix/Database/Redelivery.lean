import Predix.Database.Conserved

namespace Predix

open Data

/-! Envelopes that reach the worker again after they were processed. -/

def EventData.created? [UUID.Parser] : EventData → Option UUID
  | .orderCreated (some order) => UUID.parse order.id
  | _ => none

def EventData.canceled? [UUID.Parser] : EventData → Option UUID
  | .orderCanceled (some orderID) => UUID.parse orderID
  | _ => none

def EventData.Trades [UUID.Parser] (data : EventData) (id : UUID) : Prop :=
  match data with
  | .tradeExecuted (some trade) =>
      UUID.parse trade.orderID = some id ∨
        UUID.parse trade.matchOrderID = some id
  | _ => False

/-- Events may come in this order: an order's creation is not after another
event of the order, and its trades are not after its cancellation. -/
structure EventData.Precedes [UUID.Parser]
    (earlier later : EventData) : Prop where
  created : ∀ id, later.created? = some id →
    earlier.canceled? ≠ some id ∧ ¬ earlier.Trades id
  traded : ∀ id, later.Trades id → earlier.canceled? ≠ some id

def NotBefore (earlier later : Option Nat) : Prop :=
  ∀ old ∈ earlier, ∃ new ∈ later, old ≤ new

private theorem EventEnvelope.Stale.stays {envelope : EventEnvelope}
    {counter now : Option Nat} (stale : envelope.Stale counter)
    (notBefore : NotBefore counter now) : envelope.Stale now := by
  obtain ⟨stamped, old, isOld, older⟩ := stale
  obtain ⟨new, isNew, le⟩ := notBefore old isOld
  exact ⟨stamped, new, isNew, Nat.lt_of_lt_of_le older le⟩

namespace Database

def completed [UUID.Parser]
    (db : Database) (handling : Handling) : List Handling :=
  match db.handleEnvelope handling.counter handling.envelope with
  | .ok _ => [handling]
  | .error _ => []

/-- A sequence of calls, and one in which envelopes that were processed without
error come again. The list is that of the calls so far. -/
inductive Redelivers [UUID.Parser] :
    Database → List Handling → List Handling → List Handling → Prop where
  | nil {db : Database} {past : List Handling} : Redelivers db past [] []
  | next {db : Database} {past once copies : List Handling}
      {handling : Handling}
      (rest : Redelivers (db.process handling)
        (db.completed handling ++ past) once copies) :
      Redelivers db past (handling :: once) (handling :: copies)
  | again {db : Database} {past once copies : List Handling}
      {first : Handling} {counter : Option Nat} (before : first ∈ past)
      (later : NotBefore first.counter counter)
      (rest : Redelivers (db.process ⟨counter, first.envelope⟩) past once
        copies) :
      Redelivers db past once (⟨counter, first.envelope⟩ :: copies)

/-! An event whose effect is in the tables. -/

def CanceledOrGone (db : Database) (id : UUID) : Prop :=
  ∀ row, db.orders.lookup id = some row → row.status = .statusCanceled

/-- The tables have what the event's handler would write. -/
inductive Absorbs [UUID.Parser] (db : Database) : EventData → Prop where
  | trade {trade : TradeData} {keys : TradeKeys} {row : TradeRow}
      (valid : validateTrade trade = .ok ()) (names : trade.Names keys)
      (checked : (trade.params keys).row = .ok row)
      (known : db.trades.lookup keys.tradeID ≠ none) :
      Absorbs db (.tradeExecuted (some trade))
  | created {order : OrderData} {id eventID userID : UUID} {row : OrderRow}
      (isID : UUID.parse order.id = some id)
      (isEvent : UUID.parse order.eventID = some eventID)
      (isUser : UUID.parse order.userID = some userID)
      (checked : (order.params id eventID userID).row = .ok row)
      (known : db.orders.lookup id ≠ none) :
      Absorbs db (.orderCreated (some order))
  | canceled {orderID : String} {id : UUID}
      (isID : UUID.parse orderID = some id) (gone : db.CanceledOrGone id) :
      Absorbs db (.orderCanceled (some orderID))
  | unknown {type : String} : Absorbs db (.unknown type)

variable {db later : Database} {data : EventData}

private theorem updateOrderStatus_of_gone {id : UUID}
    (gone : db.CanceledOrGone id) :
    db.updateOrderStatus id .statusCanceled = db := by
  unfold updateOrderStatus
  split
  · rfl
  · rename_i row found
    have same : { row with status := .statusCanceled } = row := by
      rw [← gone row found]
    rw [same, FiniteMap.insert_self found]

theorem lookup_updateOrderStatus (db : Database) (id other : UUID)
    (status : Status) :
    (db.updateOrderStatus id status).orders.lookup other =
      if other = id then
        (db.orders.lookup id).map fun row => { row with status := status }
      else
        db.orders.lookup other := by
  unfold updateOrderStatus
  split
  · rename_i missing
    split
    · rename_i same
      rw [same, missing, Option.map_none]
    · rfl
  · rename_i row found
    rw [FiniteMap.lookup_insert_eq, found, Option.map_some]

section Processed

variable [UUID.Parser]

private theorem Absorbs.handleEvent (absorbs : db.Absorbs data) :
    db.handleEvent data = .ok db := by
  cases absorbs with
  | trade valid names checked known =>
      rename_i trade keys row
      change (validateTrade trade >>= fun _ => db.settleTrade trade) = _
      rw [valid]
      change db.settleTrade trade = _
      rw [settleTrade_eq names, insertTrade_again checked known]
  | created isID isEvent isUser checked known =>
      change db.handleOrderCreated _ = _
      rw [handleOrderCreated_eq isID isEvent isUser,
        insertOrder_again checked known]
  | canceled isID gone =>
      rename_i orderID id
      change db.handleOrderCanceled (some orderID) = _
      unfold handleOrderCanceled present
      dsimp only [bind, Except.bind]
      rw [isID]
      exact congrArg Except.ok (updateOrderStatus_of_gone gone)
  | unknown => rfl

theorem absorbs_of_ok (done : db.handleEvent data = .ok later) :
    later.Absorbs data := by
  cases data with
  | tradeExecuted trade =>
      obtain ⟨data, keys, rfl, valid, names, effect⟩ :=
        handleTradeExecuted_effect done
      rcases effect with ⟨unique, rfl⟩ | ⟨inserted, insertion, settles⟩
      · obtain ⟨row, checked⟩ := insertTrade_row (.inr unique)
        exact .trade valid names checked (insertTrade_unique unique)
      · obtain ⟨row, checked⟩ := insertTrade_row (.inl ⟨_, insertion⟩)
        obtain ⟨_, written, _, _, _, trades⟩ := settles.trades
        apply Absorbs.trade valid names checked
        rw [trades, FiniteMap.lookup_insert_eq, if_pos rfl]
        exact nofun
  | orderCreated order =>
      obtain ⟨data, id, eventID, userID, rfl, isID, isEvent, isUser, effect⟩ :=
        handleOrderCreated_effect done
      rcases effect with ⟨unique, rfl⟩ | insertion
      · obtain ⟨row, checked⟩ := insertOrder_row (.inr unique)
        exact .created isID isEvent isUser checked (insertOrder_unique unique)
      · obtain ⟨row, checked⟩ := insertOrder_row (.inl ⟨_, insertion⟩)
        obtain ⟨written, rfl, _⟩ := insertOrder_ok insertion
        apply Absorbs.created isID isEvent isUser checked
        change Finmap.lookup id (db.orders.insert id written) ≠ none
        rw [FiniteMap.lookup_insert_eq, if_pos rfl]
        exact nofun
  | orderCanceled orderID =>
      obtain ⟨text, id, rfl, isID, rfl⟩ := handleOrderCanceled_effect done
      apply Absorbs.canceled isID
      intro row found
      rw [lookup_updateOrderStatus, if_pos rfl] at found
      obtain ⟨old, _, rfl⟩ := Option.map_eq_some_iff.mp found
      rfl
  | unknown type => exact .unknown

/-- Rows stay, and only its own events take an order out of its last state. -/
structure Keeps (db later : Database) (data : EventData) : Prop where
  trades : ∀ {id}, db.trades.lookup id ≠ none → later.trades.lookup id ≠ none
  orders : ∀ {id}, db.orders.lookup id ≠ none → later.orders.lookup id ≠ none
  gone : ∀ {id}, data.created? ≠ some id → ¬ data.Trades id →
    db.CanceledOrGone id → later.CanceledOrGone id

private theorem Keeps.refl (db : Database) (data : EventData) :
    db.Keeps db data :=
  ⟨id, id, fun _ _ gone => gone⟩

theorem keeps_of_ok (done : db.handleEvent data = .ok later) :
    db.Keeps later data := by
  cases data with
  | tradeExecuted trade =>
      obtain ⟨data, keys, rfl, _, names, effect⟩ :=
        handleTradeExecuted_effect done
      rcases effect with ⟨_, rfl⟩ | ⟨_, _, settles⟩
      · exact .refl later _
      · obtain ⟨_, row, _, _, _, trades⟩ := settles.trades
        obtain ⟨taker, maker, _, _, orders⟩ := settles.orders
        refine ⟨?_, ?_, ?_⟩
        · intro id there
          rw [trades]
          exact FiniteMap.lookup_insert_ne_none row there
        · intro id there
          rw [orders]
          exact FiniteMap.lookup_insert_ne_none _
            (FiniteMap.lookup_insert_ne_none _ there)
        · intro id _ foreign gone row found
          have notTaker : id ≠ keys.takerOrderID :=
            fun same => foreign (.inl (same ▸ names.taker))
          have notMaker : id ≠ keys.makerOrderID :=
            fun same => foreign (.inr (same ▸ names.maker))
          rw [orders, FiniteMap.lookup_insert_eq, if_neg notMaker,
            FiniteMap.lookup_insert_eq, if_neg notTaker] at found
          exact gone row found
  | orderCreated order =>
      obtain ⟨data, id, _, _, rfl, isID, _, _, effect⟩ :=
        handleOrderCreated_effect done
      rcases effect with ⟨_, rfl⟩ | insertion
      · exact .refl later _
      · obtain ⟨row, rfl, _⟩ := insertOrder_ok insertion
        refine ⟨fun there => there, FiniteMap.lookup_insert_ne_none row, ?_⟩
        intro other notCreated _ gone found isFound
        have different : other ≠ id := fun same => notCreated (same ▸ isID)
        rw [FiniteMap.lookup_insert_eq] at isFound
        exact gone found ((if_neg different).symm.trans isFound)
  | orderCanceled orderID =>
      obtain ⟨text, id, rfl, _, rfl⟩ := handleOrderCanceled_effect done
      refine ⟨?_, ?_, ?_⟩
      · intro other there
        unfold updateOrderStatus
        split <;> exact there
      · intro other there
        rw [lookup_updateOrderStatus]
        split
        · rename_i same
          rw [same] at there
          exact fun none => there (Option.map_eq_none_iff.mp none)
        · exact there
      · intro other _ _ gone row found
        rw [lookup_updateOrderStatus] at found
        split at found
        · obtain ⟨old, _, rfl⟩ := Option.map_eq_some_iff.mp found
          rfl
        · exact gone row found
  | unknown type =>
      cases done
      exact .refl db _

private theorem Absorbs.kept (absorbs : db.Absorbs data) {next : EventData}
    (precedes : data.Precedes next) (keeps : db.Keeps later next) :
    later.Absorbs data := by
  cases absorbs with
  | trade valid names checked known =>
      exact .trade valid names checked (keeps.trades known)
  | created isID isEvent isUser checked known =>
      exact .created isID isEvent isUser checked (keeps.orders known)
  | canceled isID gone =>
      refine .canceled isID (keeps.gone ?_ ?_ gone)
      · exact fun created => (precedes.created _ created).1 isID
      · exact fun traded => precedes.traded _ traded isID
  | unknown => exact .unknown

/-! Calls. -/

def Settled (db : Database) (handling : Handling) : Prop :=
  handling.envelope.Stale handling.counter ∨
    db.Absorbs handling.envelope.data

private theorem Settled.process_again {handling : Handling}
    (settled : db.Settled handling)
    {counter : Option Nat} (notBefore : NotBefore handling.counter counter) :
    db.process ⟨counter, handling.envelope⟩ = db := by
  have unchanged : db.handleEnvelope counter handling.envelope = .ok db := by
    by_cases stale : handling.envelope.Stale counter
    · exact handleEnvelope_stale db stale
    · rw [handleEnvelope_accepted db stale]
      rcases settled with dropped | absorbs
      · exact absurd (dropped.stays notBefore) stale
      · exact absorbs.handleEvent
  simp only [process, unchanged]

theorem process_cases (db : Database) (handling : Handling) :
    (db.process handling = db ∧
      (handling ∈ db.completed handling →
        handling.envelope.Stale handling.counter)) ∨
    db.handleEvent handling.envelope.data = .ok (db.process handling) := by
  unfold process completed
  by_cases stale : handling.envelope.Stale handling.counter
  · rw [handleEnvelope_stale db stale]
    exact .inl ⟨rfl, fun _ => stale⟩
  · rw [handleEnvelope_accepted db stale]
    cases handled : db.handleEvent handling.envelope.data with
    | ok later => exact .inr rfl
    | error message => exact .inl ⟨rfl, fun member => nomatch member⟩

private theorem mem_completed {handling found : Handling}
    (member : found ∈ db.completed handling) : found = handling := by
  unfold completed at member
  split at member
  · exact List.mem_singleton.mp member
  · cases member

private theorem settled_completed {handling : Handling}
    (member : handling ∈ db.completed handling) :
    (db.process handling).Settled handling := by
  rcases process_cases db handling with ⟨_, dropped⟩ | done
  · exact .inl (dropped member)
  · exact .inr (absorbs_of_ok done)

private theorem Settled.kept {handling next : Handling}
    (settled : db.Settled handling)
    (precedes : handling.envelope.data.Precedes next.envelope.data) :
    (db.process next).Settled handling := by
  rcases process_cases db next with ⟨unchanged, _⟩ | done
  · rw [unchanged]
    exact settled
  · exact settled.imp_right fun absorbs =>
      absorbs.kept precedes (keeps_of_ok done)

private theorem processAll_of_redelivers {past once copies : List Handling}
    (redelivers : db.Redelivers past once copies)
    (settled : ∀ handling ∈ past, db.Settled handling)
    (past_precedes : ∀ handling ∈ past, ∀ next ∈ once,
      handling.envelope.data.Precedes next.envelope.data)
    (ordered : once.Pairwise fun earlier later =>
      earlier.envelope.data.Precedes later.envelope.data) :
    db.processAll copies = db.processAll once := by
  induction redelivers with
  | nil => rfl
  | @next db past once copies handling rest induction =>
      rw [List.pairwise_cons] at ordered
      apply induction
      · intro found member
        rcases List.mem_append.mp member with now | before
        · cases mem_completed now
          exact settled_completed now
        · exact (settled found before).kept
            (past_precedes found before handling List.mem_cons_self)
      · intro found member next isNext
        rcases List.mem_append.mp member with now | before
        · cases mem_completed now
          exact ordered.1 next isNext
        · exact past_precedes found before next
            (List.mem_cons_of_mem handling isNext)
      · exact ordered.2
  | @again db past once copies first counter before later rest induction =>
      have unchanged := (settled first before).process_again later
      rw [unchanged] at induction
      have same := induction settled past_precedes ordered
      change (db.process ⟨counter, first.envelope⟩).processAll copies = _
      rw [unchanged]
      exact same

/-- If the creation of an order comes before its other events and no trade after
its cancellation, envelopes that come again leave the tables as they are. -/
theorem redelivery_idempotent (db : Database) {once copies : List Handling}
    (ordered : once.Pairwise fun earlier later =>
      earlier.envelope.data.Precedes later.envelope.data)
    (redelivers : db.Redelivers [] once copies) :
    db.processAll copies = db.processAll once :=
  processAll_of_redelivers redelivers (fun _ member => nomatch member)
    (fun _ member => nomatch member) ordered

end Processed

def saleTrade : EventData :=
  .tradeExecuted (some ⟨(shortID 6).text, (shortID 5).text, (shortID 4).text,
    (shortID 3).text, "YES", (shortID 1).text, (shortID 2).text, "BUY", 2, 5000⟩)

def saleCancel : EventData := .orderCanceled (some (shortID 4).text)

/-- The creation of a resting sale and of the order that buys part of it, their
trade, and the cancellation of the rest. -/
def saleHandlings : List Handling :=
  [⟨some 1, 1, .orderCreated (some ⟨(shortID 4).text, (shortID 3).text,
      (shortID 2).text, "LIMIT", "YES", "SELL", 5, 0, 5, 5000, "PENDING"⟩)⟩,
    ⟨some 1, 1, .orderCreated (some ⟨(shortID 5).text, (shortID 3).text,
      (shortID 1).text, "LIMIT", "YES", "BUY", 2, 0, 2, 5000, "PENDING"⟩)⟩,
    ⟨some 1, 1, saleTrade⟩, ⟨some 1, 1, saleCancel⟩]

/-- The trade and the cancellation come again after the last event. -/
theorem redelivery_saleHandlings :
    emptyTables.processAll
        (saleHandlings ++ [⟨some 1, 1, saleTrade⟩, ⟨some 1, 1, saleCancel⟩]) =
      emptyTables.processAll saleHandlings := by
  apply redelivery_idempotent
  · have created : ∀ order next, (EventData.orderCreated order).Precedes next :=
      fun order next => ⟨fun _ _ => ⟨nofun, id⟩, fun _ _ => nofun⟩
    have canceled : ∀ earlier, EventData.Precedes earlier saleCancel :=
      fun earlier => ⟨nofun, nofun⟩
    simp only [saleHandlings, List.pairwise_cons, List.mem_cons,
      List.not_mem_nil, forall_eq_or_imp, created, canceled, implies_true,
      and_true, List.Pairwise.nil, false_imp_iff]
  · have same : NotBefore (some 1) (some 1) :=
      fun old isOld => ⟨old, isOld, Nat.le_refl old⟩
    refine .next (.next (.next (.next ?_)))
    refine @Redelivers.again _ _ _ _ _ ⟨some 1, 1, saleTrade⟩ _ ?_ same ?_
    · decide +kernel
    · refine @Redelivers.again _ _ _ _ _ ⟨some 1, 1, saleCancel⟩ _ ?_ same .nil
      decide +kernel

end Database

end Predix
