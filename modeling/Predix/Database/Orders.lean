import Predix.Book.Remainder
import Predix.Database.Rows

namespace Predix

open Data Word

/-! The order rows that the engine's events build, compared with its orders. -/

structure Emitting where
  engine : Engine
  events : List Event

def Emitting.step (emitting : Emitting) (input : Input) : Emitting :=
  { engine := (emitting.engine.step input).engine
    events := emitting.events ++ (emitting.engine.step input).events }

def runEmitting (balances positions : Accounts String) (inputs : List Input) :
    Emitting :=
  runFrom Emitting.step ⟨Engine.seeded balances positions, []⟩ inputs

/-- Every emission of the command succeeds, and its order has the id that a
row gives back. -/
structure Input.Streamed (input : Input) : Prop where
  emitted : input.surroundings.orderCreatedEmitted = true
  canonical : ∀ order ∈ input.order?, Canonical order.id

instance Input.Streamed.decidable (input : Input) : Decidable input.Streamed :=
  decidable_of_iff
    (input.surroundings.orderCreatedEmitted = true ∧
      ∀ order ∈ input.order?, Canonical order.id)
    ⟨fun ⟨emitted, canonical⟩ => ⟨emitted, canonical⟩,
      fun ⟨emitted, canonical⟩ => ⟨emitted, canonical⟩⟩

def Stamps (token : Nat) (event : Event) (envelope : EventEnvelope) : Prop :=
  envelope.fencingToken = token ∧
    ∃ tradeID : UUID, envelope.data = event.data tradeID

def EventEnvelope.tradeID? (envelope : EventEnvelope) : Option String :=
  match envelope.data with
  | .tradeExecuted (some trade) => some trade.id
  | _ => none

def tradeIDs (envelopes : List EventEnvelope) : List String :=
  envelopes.filterMap EventEnvelope.tradeID?

theorem tradeIDs_cons (envelope : EventEnvelope)
    (envelopes : List EventEnvelope) :
    tradeIDs (envelope :: envelopes) =
      envelope.tradeID?.toList ++ tradeIDs envelopes := by
  unfold tradeIDs
  rw [List.filterMap_cons]
  cases envelope.tradeID? <;> rfl

/-- A row shows an order as it is. -/
structure OrderRow.IsFinal (row : OrderRow) (order : Order) : Prop where
  filled : row.filledQuantity = numericFromInt order.filledQuantity
  remaining : row.remainingQuantity = numericFromInt order.remainingQuantity
  status : row.status = order.status

def Database.ReachesFinal [UUID.Parser]
    (db : Database) (engine : Engine) : Prop :=
  ∀ id order, engine.orders.lookup id = some order →
    ∃ row, db.row? id = some row ∧ row.IsFinal order

/-! The status a row gets. -/

/-- The status that the quantities alone would give. -/
def progressStatus (quantity filled : Int) : Status :=
  if quantity ≤ filled then .statusFilled
  else if filled = 0 then .statusPending
  else .statusPartial

/-- The status the events of an order leave in its row: the end of a MARKET
order with a remainder is not among them. -/
def Order.recordedStatus (order : Order) : Status :=
  if order.status = .statusCanceled ∧ order.orderType = .orderTypeLimit then
    .statusCanceled
  else
    progressStatus order.quantity.toInt order.filledQuantity.toInt

private theorem progressStatus_eq {order : Order} (accounted : order.Accounted)
    (notCanceled : order.status ≠ .statusCanceled) :
    progressStatus order.quantity.toInt order.filledQuantity.toInt =
      order.status := by
  have balanced := accounted.balanced
  have quantity := accounted.quantity
  have remaining := accounted.remainingNonneg
  have full := accounted.full
  unfold progressStatus
  cases status : order.status with
  | statusPending =>
      have zero := accounted.pending status
      rw [if_neg (by omega), if_pos zero]
  | statusPartial =>
      have partly := accounted.partly status
      rw [if_neg (by omega), if_neg (by omega)]
  | statusFilled =>
      have zero := full.mp status
      rw [if_pos (by omega)]
  | statusCanceled => exact absurd status notCanceled
  | statusRejected => exact absurd status accounted.notRejected

private theorem recordedStatus_eq_iff {order : Order}
    (accounted : order.Accounted) :
    order.recordedStatus = order.status ↔
      ¬ (order.orderType = .orderTypeMarket ∧
        order.status = .statusCanceled) := by
  unfold Order.recordedStatus
  cases Decidable.em (order.status = .statusCanceled) with
  | inr notCanceled =>
      rw [if_neg fun both => notCanceled both.1,
        progressStatus_eq accounted notCanceled]
      simp [notCanceled]
  | inl canceled =>
      cases type : order.orderType with
      | orderTypeLimit => simp [canceled]
      | orderTypeMarket =>
          rw [if_neg (by simp)]
          simp only [canceled, and_self, not_true_eq_false, iff_false]
          unfold progressStatus
          split
          · simp
          · split <;> simp

structure OrderRow.Shows (row : OrderRow) (total part : Int)
    (reached : Status) : Prop where
  quantity : row.quantity = total * 100000000
  small : InColumn row.quantity
  filled : row.filledQuantity = part * 100000000
  remaining : row.remainingQuantity = (total - part) * 100000000
  status : row.status = reached

private theorem OrderRow.Shows.fill {row : OrderRow} {quantity filled : Int}
    {status : Status} (shows : row.Shows quantity filled status)
    (nonneg : 0 ≤ filled) {more : Int64} (positive : 0 < more.toInt)
    (le : filled + more.toInt ≤ quantity) :
    (row.fill more).Shows quantity (filled + more.toInt)
      (progressStatus quantity (filled + more.toInt)) := by
  have quantityIs := shows.quantity
  have filledIs := shows.filled
  have small := shows.small
  unfold InColumn decimalLimit at small
  refine ⟨quantityIs, shows.small, ?_, ?_, ?_⟩
  · change row.filledQuantity + more.toInt * 100000000 = _
    omega
  · change max (row.quantity - (row.filledQuantity + more.toInt * 100000000))
      0 = _
    omega
  · change Database.fillStatus (numericToInt64 row.filledQuantity + more)
      (numericToInt64 row.quantity) = _
    have reads : ∀ {shares : Int}, 0 ≤ shares → shares ≤ quantity →
        (numericToInt64 (shares * 100000000)).toInt = shares := by
      intro shares low high
      rw [numericToInt64_whole (by rw [abs_of_nonneg low]; omega)]
      exact Int64.toInt_ofInt_of_le (by omega) (by omega)
    have sum : (numericToInt64 row.filledQuantity + more).toInt =
        filled + more.toInt := by
      rw [filledIs, toInt_add]
      · rw [reads nonneg (by omega)]
      · rw [reads nonneg (by omega)]
        unfold Fits
        omega
    have whole : (numericToInt64 row.quantity).toInt = quantity := by
      rw [quantityIs, reads (by omega) le_rfl]
    unfold Database.fillStatus progressStatus
    simp only [Int64.le_iff_toInt_le, sum, whole]
    split
    · rfl
    · rw [if_neg (by omega)]

/-! The envelopes of one command. -/

theorem drain_cons [UUID.Parser] (counter : Option Nat) (db : Database)
    (envelope : EventEnvelope) (envelopes : List EventEnvelope) :
    db.drain counter (envelope :: envelopes) =
      db.handleEnvelope counter envelope >>= fun db =>
        db.drain counter envelopes :=
  List.foldlM_cons

theorem drain_append [UUID.Parser] (counter : Option Nat) (db : Database)
    (first second : List EventEnvelope) :
    db.drain counter (first ++ second) =
      db.drain counter first >>= fun db => db.drain counter second :=
  List.foldlM_append

theorem handleEnvelope_current [UUID.Parser]
    (db : Database) {token : Nat} {event : Event}
    {envelope : EventEnvelope} (stamped : Stamps token event envelope) :
    ∃ tradeID,
      envelope.tradeID? = EventEnvelope.tradeID? ⟨token, event.data tradeID⟩ ∧
      db.handleEnvelope (some token) envelope =
        db.handleEvent (event.data tradeID) := by
  obtain ⟨current, tradeID, data⟩ := stamped
  refine ⟨tradeID, ?_, ?_⟩
  · simp only [EventEnvelope.tradeID?, data]
  · have accepted : fencingDecisionForToken token token = .fencingAccept := by
      unfold fencingDecisionForToken
      split
      · rfl
      · rw [if_neg (Nat.lt_irrefl token)]
    simp only [Database.handleEnvelope, current, accepted, data]

structure Database.Awaits [UUID.Parser]
    (db : Database) (fill : Fill) : Prop where
  canonical : Canonical fill.maker.id
  row : ∃ row status, db.row? fill.maker.id = some row ∧
    row.Shows fill.maker.quantity.toInt fill.maker.filledQuantity.toInt status
  nonneg : 0 ≤ fill.maker.filledQuantity.toInt
  positive : 0 < fill.quantity.toInt
  le : fill.maker.filledQuantity.toInt + fill.quantity.toInt ≤
    fill.maker.quantity.toInt

def Database.HasFilled [UUID.Parser] (db : Database) (fill : Fill) : Prop :=
  ∃ row, db.row? fill.maker.id = some row ∧
    row.Shows fill.maker.quantity.toInt
      (fill.maker.filledQuantity.toInt + fill.quantity.toInt)
      (progressStatus fill.maker.quantity.toInt
        (fill.maker.filledQuantity.toInt + fill.quantity.toInt))

def Database.HasTaken [UUID.Parser]
    (db : Database) (order : Order) (part : Int) : Prop :=
  ∃ row, db.row? order.id = some row ∧
    row.Shows order.quantity.toInt part
      (progressStatus order.quantity.toInt part)

section Trades

variable [UUID.Parser]

variable {token : Nat} {order : Order} (canonical : Canonical order.id)

include canonical

private theorem handle_trade {db later : Database} {fill : Fill}
    {envelope : EventEnvelope}
    (stamped : Stamps token (.tradeExecuted (fill.trade order)) envelope)
    {known : List String} (among : db.TradesAmong known)
    (new : ∀ id ∈ envelope.tradeID?, id ∉ known)
    (awaits : db.Awaits fill) (foreign : fill.maker.id ≠ order.id)
    {part : Int} (taken : db.HasTaken order part) (nonneg : 0 ≤ part)
    (le : part + fill.quantity.toInt ≤ order.quantity.toInt)
    (done : db.handleEnvelope (some token) envelope = .ok later) :
    later.HasTaken order (part + fill.quantity.toInt) ∧
      later.HasFilled fill ∧
      (∀ other, Canonical other → other ≠ order.id → other ≠ fill.maker.id →
        later.row? other = db.row? other) ∧
      later.TradesAmong (known ++ envelope.tradeID?.toList) := by
  obtain ⟨tradeID, isID, handled⟩ := handleEnvelope_current db stamped
  rw [handled] at done
  change db.handleTradeExecuted
    (some ((fill.trade order).data tradeID.text)) = .ok later at done
  change envelope.tradeID? = some tradeID.text at isID
  have unsettled : db.trades.lookup tradeID = none := by
    by_contra settled
    exact new tradeID.text isID (among tradeID settled)
  have takerCanonical : Canonical (fill.trade order).orderID := canonical
  have makerCanonical : Canonical (fill.trade order).matchOrderID :=
    awaits.canonical
  obtain ⟨takerRow, makerRow, row, takerFound, makerFound, rows, trades⟩ :=
    Database.handleTradeExecuted_rows takerCanonical makerCanonical foreign
      unsettled done
  obtain ⟨found, isFound, shows⟩ := taken
  obtain ⟨makerFoundRow, status, isMaker, makerShows⟩ := awaits.row
  change db.row? order.id = some takerRow at takerFound
  change db.row? fill.maker.id = some makerRow at makerFound
  rw [isFound] at takerFound
  rw [isMaker] at makerFound
  cases takerFound
  cases makerFound
  refine ⟨⟨takerRow.fill fill.quantity, ?_, ?_⟩,
    ⟨makerRow.fill fill.quantity, ?_, ?_⟩, ?_, ?_⟩
  · rw [rows order.id canonical, if_neg fun same => foreign same.symm]
    exact if_pos rfl
  · exact shows.fill nonneg awaits.positive le
  · rw [rows fill.maker.id awaits.canonical]
    exact if_pos rfl
  · exact makerShows.fill awaits.nonneg awaits.positive awaits.le
  · intro other otherCanonical notTaker notMaker
    rw [rows other otherCanonical]
    exact (if_neg notMaker).trans (if_neg notTaker)
  · intro uuid settled
    rw [trades, FiniteMap.lookup_insert_eq] at settled
    rw [isID]
    split at settled
    · rename_i same
      rw [same]
      simp
    · exact List.mem_append_left _ (among uuid settled)

private theorem drain_trades {fills : List Fill} {db later : Database}
    {envelopes : List EventEnvelope}
    (stamped : List.Forall₂ (Stamps token)
      (fills.map fun fill => .tradeExecuted (fill.trade order)) envelopes)
    (distinct : (tradeIDs envelopes).Nodup) {known : List String}
    (among : db.TradesAmong known) (new : ∀ id ∈ tradeIDs envelopes, id ∉ known)
    (awaits : ∀ fill ∈ fills, db.Awaits fill)
    (foreign : ∀ fill ∈ fills, fill.maker.id ≠ order.id)
    (makers : (fills.map (·.maker.id)).Nodup)
    {part : Int} (taken : db.HasTaken order part) (nonneg : 0 ≤ part)
    (le : part + filledSum fills ≤ order.quantity.toInt)
    (done : db.drain (some token) envelopes = .ok later) :
    later.HasTaken order (part + filledSum fills) ∧
      (∀ fill ∈ fills, later.HasFilled fill) ∧
      (∀ other, Canonical other → other ≠ order.id →
        (∀ fill ∈ fills, fill.maker.id ≠ other) →
          later.row? other = db.row? other) ∧
      later.TradesAmong (known ++ tradeIDs envelopes) := by
  induction fills generalizing db envelopes known part with
  | nil =>
      cases stamped
      cases done
      rw [filledSum_nil, Int.add_zero]
      refine ⟨taken, by simp, fun _ _ _ _ => rfl, ?_⟩
      exact among.mono (fun id member => List.mem_append_left _ member) rfl
  | cons fill fills induction =>
      cases stamped with
      | @cons _ envelope _ envelopes headStamped tailStamped =>
          rw [drain_cons] at done
          obtain ⟨middle, handled, done⟩ := bind_ok.mp done
          rw [filledSum_cons] at le ⊢
          rw [List.map_cons, List.nodup_cons] at makers
          rw [tradeIDs_cons] at distinct new ⊢
          rw [List.nodup_append] at distinct
          have headAwaits := awaits fill (by simp)
          have rest : 0 ≤ filledSum fills := by
            apply List.sum_nonneg
            intro amount member
            obtain ⟨other, isOther, rfl⟩ := List.mem_map.mp member
            exact le_of_lt (awaits other (by simp [isOther])).positive
          have positive := headAwaits.positive
          obtain ⟨nowTaken, nowFilled, kept, nowAmong⟩ := handle_trade canonical
            headStamped among
            (fun id isID => new id
              (List.mem_append_left _ (Option.mem_toList.mpr isID)))
            headAwaits (foreign fill (by simp)) taken nonneg (by omega) handled
          have others : ∀ other ∈ fills, other.maker.id ≠ fill.maker.id :=
            fun other member same =>
              makers.1 (List.mem_map.mpr ⟨other, member, same⟩)
          have tailAwaits : ∀ other ∈ fills, middle.Awaits other := by
            intro other member
            have before := awaits other (by simp [member])
            refine { before with row := ?_ }
            rw [kept other.maker.id before.canonical
              (foreign other (by simp [member])) (others other member)]
            exact before.row
          obtain ⟨finallyTaken, finallyFilled, finallyKept, finallyAmong⟩ :=
            induction tailStamped distinct.2.1 nowAmong
              (by
                intro id member earlier
                rcases List.mem_append.mp earlier with old | own
                · exact new id (List.mem_append_right _ member) old
                · exact distinct.2.2 id own id member rfl)
              tailAwaits (fun other member => foreign other (by simp [member]))
              makers.2 nowTaken (by omega) (by omega) done
          refine ⟨?_, ?_, ?_, ?_⟩
          · rw [← Int.add_assoc]
            exact finallyTaken
          · intro other member
            rcases List.mem_cons.mp member with rfl | later
            · unfold Database.HasFilled
              rw [finallyKept other.maker.id headAwaits.canonical
                (foreign other (by simp)) others]
              exact nowFilled
            · exact finallyFilled other later
          · intro other otherCanonical notTaker notMaker
            rw [finallyKept other otherCanonical notTaker
              fun fill member => notMaker fill (by simp [member])]
            exact kept other otherCanonical notTaker
              (notMaker fill (by simp)).symm
          · rw [← List.append_assoc]
            exact finallyAmong

end Trades

/-! Engine and rows between two commands. -/

structure Recorded [UUID.Parser] (engine : Engine) (db : Database) : Prop where
  canonical : ∀ {id order}, engine.orders.lookup id = some order →
    Canonical id
  shown : ∀ {id order}, engine.orders.lookup id = some order →
    ∃ row, db.row? id = some row ∧
      row.Shows order.quantity.toInt order.filledQuantity.toInt
        order.recordedStatus
  absent : ∀ {id}, Canonical id → engine.orders.lookup id = none →
    db.row? id = none

private theorem Recorded.of_orders [UUID.Parser] {engine later : Engine}
    {db : Database}
    (recorded : Recorded engine db) (orders : later.orders = engine.orders) :
    Recorded later db := by
  refine ⟨?_, ?_, ?_⟩
  · intro id order
    rw [orders]
    exact recorded.canonical
  · intro id order
    rw [orders]
    exact recorded.shown
  · intro id
    rw [orders]
    exact recorded.absent

private theorem recordedStatus_filled (fill : Fill) :
    fill.filled.recordedStatus =
      progressStatus fill.filled.quantity.toInt
        fill.filled.filledQuantity.toInt := by
  apply if_neg
  rintro ⟨canceled, _⟩
  unfold Fill.filled Order.afterFill at canceled
  split at canceled <;> contradiction

private theorem recordedStatus_taker (engine : Engine) (order : Order) :
    (engine.taker order).recordedStatus =
      progressStatus (engine.taker order).quantity.toInt
        (engine.taker order).filledQuantity.toInt := by
  apply if_neg
  rintro ⟨canceled, limit⟩
  rw [taker_status] at canceled
  unfold Order.statusAfterMatch at canceled
  rw [limit] at canceled
  split at canceled
  · contradiction
  · split at canceled <;> contradiction

section Accepted

variable [UUID.Parser]

variable {engine : Engine} {order : Order} {market : Market}
  (wellFormed : WellFormed engine) (submitted : order.Submitted)
  (fresh : engine.orders.lookup order.id = none)
  (hasMarket : engine.markets.lookup order.eventID = some market)
  {db : Database} (recorded : Recorded engine db)

include wellFormed recorded in
private theorem awaits_fills (submitted : order.Submitted) {fill : Fill}
    (member : fill ∈ engine.fillsFor order) : db.Awaits fill := by
  obtain ⟨present, _⟩ := fillsFor_maker wellFormed member
  obtain ⟨_, positive, le⟩ := fillsFor_counterparty submitted member
  have accounted := wellFormed.accounted present
  obtain ⟨row, found, shows⟩ := recorded.shown present
  have balanced := accounted.balanced
  exact ⟨recorded.canonical present, ⟨row, _, found, shows⟩,
    accounted.filledNonneg, positive, by omega⟩

include wellFormed submitted fresh hasMarket recorded in
/-- The rows after the fills show the orders after the match. -/
theorem recorded_of_fills (canonical : Canonical order.id) {later : Database}
    (taken : later.HasTaken order (filledSum (engine.fillsFor order)))
    (filled : ∀ fill ∈ engine.fillsFor order, later.HasFilled fill)
    (kept : ∀ other, Canonical other → other ≠ order.id →
      (∀ fill ∈ engine.fillsFor order, fill.maker.id ≠ other) →
        later.row? other = db.row? other) :
    Recorded (engine.matched order market) later := by
  have same := matched_sameUpToLocks wellFormed submitted fresh hasMarket
  refine ⟨?_, ?_, ?_⟩
  · intro id found present
    obtain ⟨lock, walkedPresent⟩ := same.lookup present
    generalize found.withLock lock = walked at walkedPresent
    cases afterWalk wellFormed fresh walkedPresent with
    | taker => exact canonical
    | maker fill member =>
        exact recorded.canonical (fillsFor_maker wellFormed member).1
    | other notTaker notMaker oldPresent => exact recorded.canonical oldPresent
  · intro id found present
    obtain ⟨lock, walkedPresent⟩ := same.lookup present
    have shown : ∃ row, later.row? id = some row ∧
        row.Shows (found.withLock lock).quantity.toInt
          (found.withLock lock).filledQuantity.toInt
          (found.withLock lock).recordedStatus := by
      generalize found.withLock lock = walked at walkedPresent
      cases afterWalk wellFormed fresh walkedPresent with
      | taker =>
          obtain ⟨row, isRow, shows⟩ := taken
          refine ⟨row, isRow, ?_⟩
          rw [recordedStatus_taker, (taker_terms engine order).quantity,
            taker_filled engine submitted]
          exact shows
      | maker fill member =>
          obtain ⟨row, isRow, shows⟩ := filled fill member
          obtain ⟨_, positive, le⟩ := fillsFor_counterparty submitted member
          have accounted := wellFormed.accounted
            (fillsFor_maker wellFormed member).1
          refine ⟨row, isRow, ?_⟩
          rw [recordedStatus_filled, fill.filled_terms.quantity,
            (filled_accounted accounted positive le).2.2]
          exact shows
      | other notTaker notMaker oldPresent =>
          rw [kept id (recorded.canonical oldPresent) notTaker notMaker]
          exact recorded.shown oldPresent
    exact shown
  · intro id idCanonical absent
    have keeps : ∀ {found}, engine.orders.lookup id ≠ some found := by
      intro found oldPresent
      obtain ⟨now, nowPresent⟩ :=
        matched_keeps wellFormed submitted fresh hasMarket oldPresent
      cases absent.symm.trans nowPresent
    have notTaker : id ≠ order.id := by
      rintro rfl
      obtain ⟨lock, present⟩ :=
        lookup_matched_taker wellFormed submitted fresh hasMarket
      cases absent.symm.trans present
    have notMaker : ∀ fill ∈ engine.fillsFor order, fill.maker.id ≠ id := by
      rintro fill member rfl
      exact keeps (fillsFor_maker wellFormed member).1
    rw [kept id idCanonical notTaker notMaker]
    apply recorded.absent idCanonical
    exact Option.eq_none_iff_forall_ne_some.mpr fun found => keeps

include wellFormed submitted fresh hasMarket recorded in
private theorem recorded_accepted (canonical : Canonical order.id) {token : Nat}
    {envelopes : List EventEnvelope}
    (stamped : List.Forall₂ (Stamps token)
      (.orderCreated (engine.registered order) ::
        (engine.tradesFor order).map .tradeExecuted) envelopes)
    (distinct : (tradeIDs envelopes).Nodup) {known : List String}
    (among : db.TradesAmong known)
    (new : ∀ id ∈ tradeIDs envelopes, id ∉ known) {later : Database}
    (done : db.drain (some token) envelopes = .ok later) :
    Recorded (engine.matched order market) later ∧
      later.TradesAmong (known ++ tradeIDs envelopes) := by
  cases stamped with
  | @cons _ creation _ trades created tradesStamped =>
      obtain ⟨tradeID, isID, handled⟩ := handleEnvelope_current db created
      change creation.tradeID? = none at isID
      have ids : tradeIDs (creation :: trades) = tradeIDs trades := by
        simp only [tradeIDs, List.filterMap_cons, isID]
      rw [ids] at distinct new ⊢
      rw [drain_cons, handled] at done
      obtain ⟨middle, creating, done⟩ := bind_ok.mp done
      change db.handleOrderCreated (some (engine.registered order).data) =
        .ok middle at creating
      have registeredCanonical : Canonical (engine.registered order).id :=
        canonical
      obtain ⟨row, rows, quantity, small, filled, remaining, status,
        sameTrades⟩ :=
        Database.handleOrderCreated_rows registeredCanonical
          (recorded.absent canonical fresh) creating
      have rows : ∀ other, Canonical other → middle.row? other =
        if other = order.id then some row else db.row? other := rows
      have taken : middle.HasTaken order 0 := by
        refine ⟨row, ?_, ⟨quantity, small, ?_, ?_, ?_⟩⟩
        · rw [rows order.id canonical]
          exact if_pos rfl
        · rw [filled]
          change order.filledQuantity.toInt * _ = _
          rw [submitted.filled]
          rfl
        · rw [remaining]
          change order.remainingQuantity.toInt * _ = _
          rw [submitted.remaining, Int.sub_zero]
        · rw [status]
          change order.status = _
          have positive := submitted.quantity
          unfold progressStatus
          rw [submitted.status, if_neg (by omega), if_pos rfl]
      have foreign : ∀ fill ∈ engine.fillsFor order,
          fill.maker.id ≠ order.id :=
        fun fill member => fillsFor_ne_fresh wellFormed fresh member
      have awaits : ∀ fill ∈ engine.fillsFor order, middle.Awaits fill := by
        intro fill member
        have before := awaits_fills wellFormed recorded submitted member
        refine { before with row := ?_ }
        rw [rows fill.maker.id before.canonical,
          if_neg (foreign fill member)]
        exact before.row
      have asFills : List.Forall₂ (Stamps token)
          ((engine.fillsFor order).map fun fill =>
            .tradeExecuted (fill.trade order)) trades := by
        have mapped := tradesStamped
        rw [Engine.tradesFor, List.map_map] at mapped
        exact mapped
      obtain ⟨finallyTaken, finallyFilled, kept, finallyAmong⟩ :=
        drain_trades canonical asFills distinct
          (among.mono (fun _ member => member) sameTrades) new awaits foreign
          (fillsFor_ids_nodup wellFormed) taken (Int.le_refl 0)
          (by rw [Int.zero_add]; exact fillsFor_sum_le engine submitted) done
      rw [Int.zero_add] at finallyTaken
      refine ⟨recorded_of_fills wellFormed submitted fresh hasMarket recorded
        canonical finallyTaken finallyFilled ?_, finallyAmong⟩
      intro other otherCanonical notTaker notMaker
      rw [kept other otherCanonical notTaker notMaker,
        rows other otherCanonical, if_neg notTaker]

end Accepted

/-! One command. -/

private theorem recorded_canceled [UUID.Parser]
    {engine : Engine} {order : Order} (market : Market)
    (wellFormed : WellFormed engine)
    (present : engine.orders.lookup order.id = some order)
    (live : order.status.live = true) {db later : Database}
    (recorded : Recorded engine db)
    (done : db.handleOrderCanceled (some order.id) = .ok later) :
    Recorded (engine.cancel market order) later ∧
      later.trades = db.trades := by
  obtain ⟨row, found, shows⟩ := recorded.shown present
  obtain ⟨rows, trades⟩ := Database.handleOrderCanceled_rows
    (recorded.canonical present) found done
  have lookups := lookup_cancel_released engine order market
  have limit : order.orderType = .orderTypeLimit :=
    (wellFormed.resting (wellFormed.listed present live)).1
  refine ⟨⟨?_, ?_, ?_⟩, trades⟩
  · intro id other otherPresent
    rw [lookups] at otherPresent
    split at otherPresent
    · rename_i same
      rw [same]
      exact recorded.canonical present
    · exact recorded.canonical otherPresent
  · intro id other otherPresent
    rw [lookups] at otherPresent
    split at otherPresent
    · rename_i same
      cases otherPresent
      refine ⟨{ row with status := .statusCanceled }, ?_, ?_⟩
      · rw [same, rows order.id (recorded.canonical present)]
        exact if_pos rfl
      · rw [order.canceled.released_eq]
        exact ⟨shows.quantity, shows.small, shows.filled, shows.remaining,
          (if_pos ⟨rfl, limit⟩).symm⟩
    · rename_i different
      rw [rows id (recorded.canonical otherPresent), if_neg different]
      exact recorded.shown otherPresent
  · intro id canonical absent
    rw [lookups] at absent
    split at absent
    · cases absent
    · rename_i different
      rw [rows id canonical, if_neg different]
      exact recorded.absent canonical absent

private theorem recorded_quiet [UUID.Parser]
    {engine later : Engine} {known : List String}
    {token : Nat} {envelopes : List EventEnvelope} {db final : Database}
    (recorded : Recorded engine db) (among : db.TradesAmong known)
    (orders : later.orders = engine.orders)
    (stamped : List.Forall₂ (Stamps token) [] envelopes)
    (done : db.drain (some token) envelopes = .ok final) :
    Recorded later final ∧ final.TradesAmong (known ++ tradeIDs envelopes) := by
  cases stamped
  cases done
  exact ⟨recorded.of_orders orders, by simpa [tradeIDs] using among⟩

theorem recorded_step [UUID.Parser]
    {engine : Engine} (wellFormed : WellFormed engine)
    {input : Input} (streamed : input.Streamed) {db later : Database}
    (recorded : Recorded engine db) {token : Nat}
    {envelopes : List EventEnvelope}
    (stamped : List.Forall₂ (Stamps token) (engine.step input).events envelopes)
    (distinct : (tradeIDs envelopes).Nodup) {known : List String}
    (among : db.TradesAmong known)
    (new : ∀ id ∈ tradeIDs envelopes, id ∉ known)
    (done : db.drain (some token) envelopes = .ok later) :
    Recorded (engine.step input).engine later ∧
      later.TradesAmong (known ++ tradeIDs envelopes) := by
  have effect := step_effect engine input
  generalize engine.step input = reply at effect stamped
  cases effect with
  | unchanged response _ _ =>
      exact recorded_quiet recorded among rfl stamped done
  | opened order message _ _ _ _ =>
      exact recorded_quiet recorded among (opened_orders engine order) stamped
        done
  | dropped order market _ _ _ _ lost =>
      rw [streamed.emitted] at lost
      contradiction
  | accepted order market submitted fresh hasMarket _ _ =>
      have valid := Input.order?_submitted submitted
      rw [announceAndMatch_enrolled wellFormed valid fresh hasMarket]
        at stamped ⊢
      exact recorded_accepted wellFormed valid fresh hasMarket recorded
        (streamed.canonical order submitted) stamped distinct among new done
  | canceled req order market _ present live _ _ =>
      have ownID := wellFormed.keyed _ _ present
      rw [← ownID] at present
      cases stamped with
      | @cons _ envelope _ _ isCancel rest =>
          cases rest
          obtain ⟨tradeID, isID, handled⟩ := handleEnvelope_current db isCancel
          change envelope.tradeID? = none at isID
          rw [drain_cons, handled] at done
          obtain ⟨final, canceling, done⟩ := bind_ok.mp done
          cases done
          obtain ⟨recorded, trades⟩ :=
            recorded_canceled market wellFormed present live recorded canceling
          refine ⟨recorded, among.mono ?_ trades⟩
          intro id member
          exact List.mem_append_left _ member
  | marketCreated eventID _ _ _ =>
      exact recorded_quiet recorded among rfl stamped done
  | userFunded userID _ _ _ =>
      exact recorded_quiet recorded among rfl stamped done

/-! Whole runs. -/

structure Emitting.Reflected [UUID.Parser]
    (db : Database) (emitting : Emitting) : Prop where
  wellFormed : WellFormed emitting.engine
  recorded : ∀ {token : Nat} {envelopes : List EventEnvelope} {final : Database},
    List.Forall₂ (Stamps token) emitting.events envelopes →
    (tradeIDs envelopes).Nodup →
    db.drain (some token) envelopes = .ok final →
      Recorded emitting.engine final ∧ final.TradesAmong (tradeIDs envelopes)

theorem tradeIDs_append (first second : List EventEnvelope) :
    tradeIDs (first ++ second) = tradeIDs first ++ tradeIDs second :=
  List.filterMap_append

theorem Emitting.Reflected.step [UUID.Parser]
    {db : Database} {emitting : Emitting}
    (reflected : emitting.Reflected db) {input : Input}
    (streamed : input.Streamed) : (emitting.step input).Reflected db := by
  refine ⟨wellFormed_step reflected.wellFormed input, ?_⟩
  intro token envelopes final stamped distinct done
  -- the envelopes of the run so far, then those of this command
  have before := (List.forall₂_take_append _ _ _ stamped.flip).flip
  have after := (List.forall₂_drop_append _ _ _ stamped.flip).flip
  rw [← List.take_append_drop emitting.events.length envelopes] at distinct done ⊢
  rw [tradeIDs_append, List.nodup_append'] at distinct
  obtain ⟨distinctBefore, distinctAfter, apart⟩ := distinct
  rw [drain_append] at done
  obtain ⟨middle, doneBefore, doneAfter⟩ := bind_ok.mp done
  obtain ⟨recorded, among⟩ :=
    reflected.recorded before distinctBefore doneBefore
  rw [tradeIDs_append]
  exact recorded_step reflected.wellFormed streamed recorded after
    distinctAfter among (fun id isNew isOld => apart isOld isNew) doneAfter

private theorem reflected_initially [UUID.Parser]
    (balances positions : Accounts String)
    {db : Database} (noOrders : db.orders = ∅) (noTrades : db.trades = ∅) :
    Emitting.Reflected db ⟨Engine.seeded balances positions, []⟩ := by
  refine ⟨wellFormed_seeded balances positions, ?_⟩
  intro token envelopes final stamped _ done
  cases stamped
  cases done
  refine ⟨⟨?_, ?_, ?_⟩, ?_⟩
  · intro id order present
    contradiction
  · intro id order present
    contradiction
  · intro id canonical _
    obtain ⟨uuid, parsed, _⟩ := canonical.exists
    rw [Database.row?_eq parsed, noOrders]
    rfl
  · intro uuid known
    rw [noTrades] at known
    contradiction

theorem reflected_run [UUID.Parser] (balances positions : Accounts String)
    {inputs : List Input} (streamed : ∀ input ∈ inputs, input.Streamed)
    {db : Database} (noOrders : db.orders = ∅) (noTrades : db.trades = ∅) :
    (runEmitting balances positions inputs).Reflected db :=
  invariant_runFrom (Emitting.Reflected db)
    (fun _ _ reflected streamed => reflected.step streamed)
    (reflected_initially balances positions noOrders noTrades)
    (along_of_forall Emitting.step _ streamed)

private theorem OrderRow.Shows.isFinal_iff {row : OrderRow} {order : Order}
    (shows : row.Shows order.quantity.toInt order.filledQuantity.toInt
      order.recordedStatus) (accounted : order.Accounted) :
    row.IsFinal order ↔
      ¬ (order.orderType = .orderTypeMarket ∧
        order.status = .statusCanceled) := by
  rw [← recordedStatus_eq_iff accounted]
  constructor
  · intro final
    exact shows.status.symm.trans final.status
  · intro same
    refine ⟨shows.filled, ?_, shows.status.trans same⟩
    rw [shows.remaining, numericFromInt]
    have balanced := accounted.balanced
    congr 1
    omega

theorem noRemainder_runEmitting (balances positions : Accounts String)
    {inputs : List Input} (streamed : ∀ input ∈ inputs, input.Streamed) :
    (runEmitting balances positions inputs).engine.NoRemainder ↔
      Along Emitting.step (fun emitting => emitting.engine.FillsMarket)
        ⟨Engine.seeded balances positions, []⟩ inputs := by
  have initially :
      WellFormed (Emitting.mk (Engine.seeded balances positions) []).engine :=
    wellFormed_seeded balances positions
  refine (runFrom_iff_along_of (fun emitting => WellFormed emitting.engine)
    (fun emitting => emitting.engine.NoRemainder)
    (fun _ input wellFormed _ => wellFormed_step wellFormed input)
    (fun _ _ wellFormed streamed => noRemainder_step wellFormed streamed.emitted)
    initially (along_of_forall Emitting.step _ streamed)).trans
      (and_iff_right ?_)
  intro id order present
  contradiction

/-- The rows reach the final state of every order exactly when each MARKET order
found all it asked for: the end of an order with a part unfilled is not among
the events. -/
theorem rows_reachFinal_iff [UUID.Parser] (balances positions : Accounts String)
    {inputs : List Input} (streamed : ∀ input ∈ inputs, input.Streamed)
    {db : Database} (noOrders : db.orders = ∅) (noTrades : db.trades = ∅)
    {token : Nat} {envelopes : List EventEnvelope}
    (stamped : List.Forall₂ (Stamps token)
      (runEmitting balances positions inputs).events envelopes)
    (distinct : (tradeIDs envelopes).Nodup) {final : Database}
    (done : db.drain (some token) envelopes = .ok final) :
    final.ReachesFinal (runEmitting balances positions inputs).engine ↔
      Along Emitting.step (fun emitting => emitting.engine.FillsMarket)
        ⟨Engine.seeded balances positions, []⟩ inputs := by
  rw [← noRemainder_runEmitting balances positions streamed]
  have reflected := reflected_run balances positions streamed noOrders noTrades
  obtain ⟨recorded, _⟩ := reflected.recorded stamped distinct done
  constructor
  · intro allFinal id order present market canceled
    obtain ⟨row, found, isFinal⟩ := allFinal id order present
    obtain ⟨shown, shownFound, shows⟩ := recorded.shown present
    cases found.symm.trans shownFound
    exact (shows.isFinal_iff (reflected.wellFormed.accounted present)).mp
      isFinal ⟨market, canceled⟩
  · intro noRemainder id order present
    obtain ⟨row, found, shows⟩ := recorded.shown present
    refine ⟨row, found, ?_⟩
    apply (shows.isFinal_iff (reflected.wellFormed.accounted present)).mpr
    rintro ⟨market, canceled⟩
    exact noRemainder id order present market canceled

/-! Two runs. -/

def Event.stamped (token : Nat) (tradeID : UUID) (event : Event) :
    EventEnvelope :=
  ⟨token, event.data tradeID⟩

theorem stamps_stamped (token : Nat) (tradeID : UUID) (events : List Event) :
    List.Forall₂ (Stamps token) events
      (events.map (Event.stamped token tradeID)) := by
  induction events with
  | nil => exact .nil
  | cons event events induction =>
      exact .cons ⟨rfl, tradeID, rfl⟩ induction

instance hexDigit_neZero : NeZero 16 := ⟨Nat.succ_ne_zero 15⟩

def shortID (last : Fin 16) : UUID :=
  ⟨List.replicate 31 0 ++ [last], rfl⟩

def emptyTables : Database where
  users := Finmap.insert (shortID 1) 10000000000
    (Finmap.insert (shortID 2) 0 ∅)
  events := Finmap.insert (shortID 3) 0 ∅
  orders := ∅
  trades := ∅
  positions := ∅
  transactions := []

def oneSale : Emitting :=
  runEmitting (Finmap.insert (shortID 1).text ⟨1000000, 0⟩ ∅)
    (Finmap.insert
      ((shortID 2).text ++ ":" ++ (shortID 3).text ++ ":YES") ⟨5, 0⟩ ∅)
    [.createEvent (shortID 3).text,
      .submit (shortID 4).text (shortID 3).text (shortID 2).text "LIMIT" "YES"
        "SELL" 5 5000,
      .submit (shortID 5).text (shortID 3).text (shortID 1).text "MARKET" "YES"
        "BUY" 2 0]

/-- A resting order that is filled in part by a MARKET order. -/
theorem reachFinal_oneSale :
    ∃ final, emptyTables.drain (some 1)
        (oneSale.events.map (Event.stamped 1 (shortID 6))) = .ok final ∧
      final.ReachesFinal oneSale.engine := by
  have succeeds : (emptyTables.drain (some 1)
      (oneSale.events.map (Event.stamped 1 (shortID 6)))).toOption.isSome =
        true := by
    decide +kernel
  cases done : emptyTables.drain (some 1)
      (oneSale.events.map (Event.stamped 1 (shortID 6))) with
  | error message =>
      rw [done] at succeeds
      cases succeeds
  | ok final =>
      refine ⟨final, rfl, (rows_reachFinal_iff _ _ ?_ rfl rfl
        (stamps_stamped 1 (shortID 6) _) ?_ done).mpr ?_⟩
      · decide +kernel
      · decide +kernel
      · decide +kernel

def unmatched : List Input :=
  [.createEvent (shortID 3).text,
    .submit (shortID 4).text (shortID 3).text (shortID 1).text "MARKET" "YES"
      "BUY" 2 0]

/-- The engine has canceled the order, and its row is pending. -/
theorem unmatched_staysPending :
    ∃ final, (∀ input ∈ unmatched, input.Streamed) ∧
      emptyTables.drain (some 1) ((runEmitting ∅ ∅ unmatched).events.map
        (Event.stamped 1 (shortID 6))) = .ok final ∧
      ¬ final.ReachesFinal (runEmitting ∅ ∅ unmatched).engine := by
  have canceled : ((runEmitting ∅ ∅ unmatched).engine.orders.lookup
      (shortID 4).text).map Order.status = some .statusCanceled := by
    decide +kernel
  have pending : (emptyTables.drain (some 1)
      ((runEmitting ∅ ∅ unmatched).events.map
        (Event.stamped 1 (shortID 6)))).toOption.map
      (fun final => (final.row? (shortID 4).text).map OrderRow.status) =
        some (some .statusPending) := by
    decide +kernel
  cases done : emptyTables.drain (some 1)
      ((runEmitting ∅ ∅ unmatched).events.map
        (Event.stamped 1 (shortID 6))) with
  | error message =>
      rw [done] at pending
      cases pending
  | ok final =>
      rw [done] at pending
      refine ⟨final, by decide +kernel, rfl, ?_⟩
      intro reaches
      obtain ⟨order, present, orderStatus⟩ := Option.map_eq_some_iff.mp canceled
      obtain ⟨row, found, isFinal⟩ := reaches _ order present
      have rowStatus : (final.row? (shortID 4).text).map OrderRow.status =
          some .statusPending := Option.some.inj pending
      rw [found] at rowStatus
      have same := isFinal.status
      rw [Option.some.inj rowStatus, orderStatus] at same
      cases same

end Predix
