import Predix.Database.Capacity
import Predix.Database.Redelivery
import Predix.Ledger.Holdings
import Predix.Ledger.ShareTotals

namespace Predix

open Data Word

/-! The balances, the positions and the volumes of the tables follow the
engine's ledger. -/

private theorem hexChar_ne_colon (digit : Fin 16) : hexChar digit ≠ ':' := by
  revert digit
  decide

private theorem UUID.colonFree_text (uuid : UUID) : ColonFree uuid.text := by
  intro member
  unfold UUID.text at member
  rw [String.toList_ofList] at member
  rcases mem_hyphenate member with digit | hyphen
  · obtain ⟨value, _, same⟩ := List.mem_map.mp digit
    exact hexChar_ne_colon value same
  · revert hyphen
    decide

namespace Database

def PositionID.key (id : PositionID) : String :=
  positionKey id.userID.text id.eventID.text id.outcome

theorem PositionID.key_inj {first second : PositionID}
    (same : PositionID.key first = PositionID.key second) : first = second := by
  obtain ⟨user, event, outcome⟩ := positionKey_inj
    (UUID.colonFree_text _) (UUID.colonFree_text _) same
  cases first
  cases second
  cases UUID.text_injective user
  cases UUID.text_injective event
  cases outcome
  rfl

/-! What a settlement does to one row. -/

section Settles

variable {db later : Database} {trade : TradeData} {keys : TradeKeys}
  (settles : db.Settles trade keys later)

include settles

theorem Settles.lookup_users (id : UUID) :
    later.users.lookup id = (db.users.lookup id).map fun balance =>
      balance + ((if keys.sellerID = id then trade.amount else 0) -
        (if keys.buyerID = id then trade.amount else 0)) := by
  obtain ⟨balance, credit, found, _, foundCredit, written⟩ := settles.users
  rw [written]
  simp only [FiniteMap.lookup_insert_eq] at foundCredit ⊢
  by_cases seller : id = keys.sellerID
  · subst seller
    by_cases both : keys.sellerID = keys.buyerID
    · rw [if_pos both] at foundCredit
      cases foundCredit
      rw [if_pos rfl, if_pos rfl, if_pos both.symm, both, found, Option.map_some]
      congr 1
      omega
    · rw [if_neg both] at foundCredit
      rw [if_pos rfl, if_pos rfl, if_neg (Ne.symm both), foundCredit,
        Option.map_some]
      congr 1
      omega
  · rw [if_neg seller, if_neg (Ne.symm seller)]
    by_cases buyer : id = keys.buyerID
    · rw [if_pos buyer, if_pos buyer.symm, buyer, found, Option.map_some]
      congr 1
      omega
    · rw [if_neg buyer, if_neg (Ne.symm buyer)]
      cases db.users.lookup id with
      | none => rfl
      | some other => simp

theorem Settles.lookup_events (id : UUID) :
    later.events.lookup id = (db.events.lookup id).map fun volume =>
      volume + (if keys.eventID = id then trade.amount else 0) := by
  obtain ⟨volume, found, written⟩ := settles.events
  rw [written, FiniteMap.lookup_insert_eq]
  by_cases own : id = keys.eventID
  · rw [if_pos own, if_pos own.symm, own, found, Option.map_some]
  · rw [if_neg own, if_neg (Ne.symm own)]
    cases db.events.lookup id with
    | none => rfl
    | some other => simp

private theorem Settles.shares_at {outcome : Outcome}
    (parsed : Outcome.parse trade.outcome = some outcome)
    (quantity : 0 < trade.quantity.toInt) (id : PositionID) :
    later.shares id = db.shares id +
      ((if id = ⟨keys.buyerID, keys.eventID, outcome⟩ then
          numericFromInt trade.quantity else 0) -
        (if id = ⟨keys.sellerID, keys.eventID, outcome⟩ then
          numericFromInt trade.quantity else 0)) := by
  obtain ⟨found, bought, sold, isFound, written, boughtShares, soldShares⟩ :=
    settles.positions
  cases parsed.symm.trans isFound
  have opposite : numericFromInt (-trade.quantity) =
      -numericFromInt trade.quantity := by
    unfold numericFromInt
    rw [toInt_neg quantity]
    exact Int.neg_mul _ _
  rw [opposite] at soldShares
  simp only [FiniteMap.lookup_insert_eq] at soldShares
  unfold Database.shares at boughtShares ⊢
  rw [written]
  simp only [FiniteMap.lookup_insert_eq]
  by_cases seller : id = ⟨keys.sellerID, keys.eventID, outcome⟩
  · rw [if_pos seller, if_pos seller, Option.elim_some, soldShares, ← seller]
    split
    · rename_i same
      rw [Option.elim_some, boughtShares, ← same]
      omega
    · omega
  · rw [if_neg seller, if_neg seller]
    split
    · rename_i buyer
      rw [Option.elim_some, boughtShares, ← buyer]
      omega
    · omega

end Settles

/-! Rows that stay. -/

structure RowsKept (db later : Database) : Prop where
  users : ∀ {id}, db.users.lookup id ≠ none → later.users.lookup id ≠ none
  events : ∀ {id}, db.events.lookup id ≠ none → later.events.lookup id ≠ none
  orders : ∀ {id}, db.orders.lookup id ≠ none → later.orders.lookup id ≠ none

theorem RowsKept.refl (db : Database) : db.RowsKept db := ⟨id, id, id⟩

theorem RowsKept.trans {first second third : Database}
    (left : first.RowsKept second) (right : second.RowsKept third) :
    first.RowsKept third :=
  ⟨fun there => right.users (left.users there),
    fun there => right.events (left.events there),
    fun there => right.orders (left.orders there)⟩

theorem rowsKept_of_ok [UUID.Parser] {db later : Database} {data : EventData}
    (done : db.handleEvent data = .ok later) : db.RowsKept later := by
  have keeps := keeps_of_ok done
  cases handleEvent_writes done with
  | orders _ => exact ⟨id, id, keeps.orders⟩
  | settled _ _ settles =>
      refine ⟨?_, ?_, keeps.orders⟩
      · intro id there
        rw [settles.lookup_users]
        simpa using there
      · intro id there
        rw [settles.lookup_events]
        simpa using there

end Database

/-! The trades of the engine. -/

def turnover (trades : List Trade) (eventID : String) : Int :=
  (trades.map fun trade =>
    if trade.eventID = eventID then trade.exactCost else 0).sum

@[simp] theorem turnover_nil (eventID : String) : turnover [] eventID = 0 := rfl

private theorem turnover_cons (trade : Trade) (trades : List Trade)
    (eventID : String) :
    turnover (trade :: trades) eventID =
      (if trade.eventID = eventID then trade.exactCost else 0) +
        turnover trades eventID := rfl

theorem turnover_append (first second : List Trade) (eventID : String) :
    turnover (first ++ second) eventID =
      turnover first eventID + turnover second eventID := by
  unfold turnover
  rw [List.map_append, List.sum_append]

/-- A trade between the orders of two users, with canonical ids and amounts
that do not wrap. -/
structure Trade.Proper (trade : Trade) : Prop where
  orderID : Canonical trade.orderID
  matchOrderID : Canonical trade.matchOrderID
  eventID : Canonical trade.eventID
  buyerID : Canonical trade.buyerID
  sellerID : Canonical trade.sellerID
  otherOrder : trade.matchOrderID ≠ trade.orderID
  otherUser : trade.sellerID ≠ trade.buyerID
  quantity : 0 < trade.quantity.toInt
  price : 0 ≤ trade.price.toInt
  exact : trade.cost.toInt = trade.exactCost

structure TradeKeys.Of (keys : TradeKeys) (trade : Trade) (tradeID : UUID) :
    Prop where
  own : keys.tradeID = tradeID
  event : keys.eventID.text = trade.eventID
  buyer : keys.buyerID.text = trade.buyerID
  seller : keys.sellerID.text = trade.sellerID
  taker : keys.takerOrderID.text = trade.orderID
  maker : keys.makerOrderID.text = trade.matchOrderID

theorem Canonical.text [UUID.Parser]
    {text : String} (canonical : Canonical text) :
    ∃ uuid : UUID, uuid.text = text := by
  obtain ⟨uuid, _, isText⟩ := canonical.exists
  exact ⟨uuid, isText⟩

private theorem Trade.Proper.keys [UUID.Parser] {trade : Trade}
    (proper : trade.Proper)
    (tradeID : UUID) : ∃ keys : TradeKeys, keys.Of trade tradeID := by
  obtain ⟨taker, isTaker⟩ := Canonical.text proper.orderID
  obtain ⟨maker, isMaker⟩ := Canonical.text proper.matchOrderID
  obtain ⟨event, isEvent⟩ := Canonical.text proper.eventID
  obtain ⟨buyer, isBuyer⟩ := Canonical.text proper.buyerID
  obtain ⟨seller, isSeller⟩ := Canonical.text proper.sellerID
  exact ⟨⟨tradeID, event, buyer, seller, taker, maker⟩, rfl, isEvent, isBuyer,
    isSeller, isTaker, isMaker⟩

section Trade

variable {trade : Trade} {tradeID : UUID} {keys : TradeKeys}
  (isOf : keys.Of trade tradeID)

include isOf

private theorem TradeKeys.Of.names [UUID.Parser]
    : (trade.data tradeID.text).Names keys where
  own := by
    rw [isOf.own]
    exact UUID.parse_text tradeID
  event := by
    change UUID.parse trade.eventID = _
    rw [← isOf.event, UUID.parse_text]
  buyer := by
    change UUID.parse trade.buyerID = _
    rw [← isOf.buyer, UUID.parse_text]
  seller := by
    change UUID.parse trade.sellerID = _
    rw [← isOf.seller, UUID.parse_text]
  taker := by
    change UUID.parse trade.orderID = _
    rw [← isOf.taker, UUID.parse_text]
  maker := by
    change UUID.parse trade.matchOrderID = _
    rw [← isOf.maker, UUID.parse_text]

private theorem TradeKeys.Of.valid (proper : trade.Proper) :
    validateTrade (trade.data tradeID.text) = .ok () := by
  have nonempty : ∀ {uuid : UUID} {text : String}, uuid.text = text →
      text ≠ "" := by
    rintro uuid text rfl
    exact uuid.text_ne_empty
  have outcome : trade.outcome.text = "YES" ∨ trade.outcome.text = "NO" := by
    cases trade.outcome
    · exact .inl rfl
    · exact .inr rfl
  rw [validateTrade_ok]
  exact
    { id := nonempty rfl
      eventID := nonempty isOf.event
      orderID := nonempty isOf.taker
      matchOrderID := nonempty isOf.maker
      buyerID := nonempty isOf.buyer
      sellerID := nonempty isOf.seller
      outcome := outcome
      quantity := Int64.lt_iff_toInt_lt.mpr proper.quantity
      price := Int64.le_iff_toInt_le.mpr proper.price }

end Trade

/-! One trade. -/

namespace Database

structure Mirrors (db : Database) (cash held : String → Int) : Prop where
  balances : ∀ {id balance}, db.users.lookup id = some balance →
    balance = 10000 * cash id.text
  shares : ∀ id, db.shares id = 100000000 * held (PositionID.key id)

structure HasTrade (db : Database) (trade : Trade) : Prop where
  taker : ∀ {id : UUID}, id.text = trade.orderID →
    db.orders.lookup id ≠ none
  maker : ∀ {id : UUID}, id.text = trade.matchOrderID →
    db.orders.lookup id ≠ none
  event : ∀ {id : UUID}, id.text = trade.eventID → db.events.lookup id ≠ none
  buyer : ∀ {id : UUID}, id.text = trade.buyerID → db.users.lookup id ≠ none
  seller : ∀ {id : UUID}, id.text = trade.sellerID → db.users.lookup id ≠ none

private theorem HasTrade.kept {db later : Database} {trade : Trade}
    (has : db.HasTrade trade) (kept : db.RowsKept later) :
    later.HasTrade trade :=
  ⟨fun isID => kept.orders (has.taker isID),
    fun isID => kept.orders (has.maker isID),
    fun isID => kept.events (has.event isID),
    fun isID => kept.users (has.buyer isID),
    fun isID => kept.users (has.seller isID)⟩

section Trade

variable {db later : Database} {trade : Trade} {tradeID : UUID}
  {keys : TradeKeys} (proper : trade.Proper) (isOf : keys.Of trade tradeID)

theorem text_eq_iff {left right : UUID} {text : String}
    (isText : right.text = text) : text = left.text ↔ right = left := by
  rw [← isText]
  exact ⟨fun same => UUID.text_injective same, fun same => by rw [same]⟩

theorem amount_data (tradeID : UUID) :
    (trade.data tradeID.text).amount = 10000 * trade.cost.toInt :=
  Int.mul_comm _ _

theorem Settles.balances (isBuyer : keys.buyerID.text = trade.buyerID)
    (isSeller : keys.sellerID.text = trade.sellerID)
    (settles : db.Settles (trade.data tradeID.text) keys later)
    {cash : String → Int}
    (before : ∀ {id balance}, db.users.lookup id = some balance →
      balance = 10000 * cash id.text) {id : UUID} {balance : Int}
    (found : later.users.lookup id = some balance) :
    balance = 10000 * (cash id.text + Leg.cash.net [trade] id.text) := by
  rw [settles.lookup_users] at found
  obtain ⟨old, isOld, rfl⟩ := Option.map_eq_some_iff.mp found
  rw [before isOld, amount_data, Leg.net_cons, Leg.net_nil]
  simp only [Leg.transfer, Trade.cashTransfer, text_eq_iff isSeller,
    text_eq_iff isBuyer]
  split <;> split <;> omega

include proper isOf

private theorem settleable (has : db.HasTrade trade)
    (new : db.trades.lookup tradeID = none)
    (covered : ∀ {id balance}, db.users.lookup id = some balance →
      id.text = trade.buyerID → 10000 * trade.cost.toInt ≤ balance) :
    db.Settleable (trade.data tradeID.text) keys where
  new := by
    rw [isOf.own]
    exact new
  event := has.event isOf.event
  taker := has.taker isOf.taker
  maker := has.maker isOf.maker
  otherOrder := by
    intro same
    apply proper.otherOrder
    rw [← isOf.maker, ← isOf.taker, same]
  buyer := by
    obtain ⟨balance, found⟩ :=
      Option.ne_none_iff_exists'.mp (has.buyer isOf.buyer)
    refine ⟨balance, found, ?_⟩
    rw [amount_data]
    exact covered found isOf.buyer
  seller := has.seller isOf.seller
  otherUser := by
    intro same
    apply proper.otherUser
    rw [← isOf.seller, ← isOf.buyer, same]
  outcome := by
    change Outcome.parse trade.outcome.text ≠ none
    rw [Outcome.parse_text]
    simp
  takerSide := by
    change Side.parse trade.takerSide.text ≠ none
    rw [Side.parse_text]
    simp

/-- A settlement moves in the tables what the trade moves in the ledger. -/
theorem Mirrors.settles {cash held : String → Int} (mirrors : db.Mirrors cash held)
    (settles : db.Settles (trade.data tradeID.text) keys later) :
    later.Mirrors (fun userID => cash userID + Leg.cash.net [trade] userID)
      (fun key => held key + Leg.shares.net [trade] key) where
  balances := settles.balances isOf.buyer isOf.seller mirrors.balances
  shares := by
    intro id
    have parsed : Outcome.parse (trade.data tradeID.text).outcome =
        some trade.outcome := Outcome.parse_text trade.outcome
    have bought : (Leg.shares.transfer trade).payee = PositionID.key id ↔
        id = ⟨keys.buyerID, keys.eventID, trade.outcome⟩ := by
      change positionKey trade.buyerID trade.eventID trade.outcome = _ ↔ _
      rw [← isOf.buyer, ← isOf.event]
      change PositionID.key ⟨_, _, _⟩ = _ ↔ _
      exact ⟨fun same => (PositionID.key_inj same).symm, fun same => by rw [same]⟩
    have sold : (Leg.shares.transfer trade).payer = PositionID.key id ↔
        id = ⟨keys.sellerID, keys.eventID, trade.outcome⟩ := by
      change positionKey trade.sellerID trade.eventID trade.outcome = _ ↔ _
      rw [← isOf.seller, ← isOf.event]
      change PositionID.key ⟨_, _, _⟩ = _ ↔ _
      exact ⟨fun same => (PositionID.key_inj same).symm, fun same => by rw [same]⟩
    have amount : numericFromInt (trade.data tradeID.text).quantity =
        100000000 * (Leg.shares.transfer trade).amount.toInt :=
      Int.mul_comm _ _
    rw [settles.shares_at parsed proper.quantity, mirrors.shares, amount,
      Leg.net_cons, Leg.net_nil]
    simp only [bought, sold]
    split <;> split <;> omega

private theorem Settles.lookup_volume
    (settles : db.Settles (trade.data tradeID.text) keys later) (id : UUID) :
    later.events.lookup id = (db.events.lookup id).map
      (· + 10000 * turnover [trade] id.text) := by
  have traded : (if keys.eventID = id then (trade.data tradeID.text).amount
      else 0) = 10000 * turnover [trade] id.text := by
    rw [turnover_cons, turnover_nil, amount_data, proper.exact]
    simp only [text_eq_iff isOf.event]
    split <;> omega
  rw [settles.lookup_events, traded]

end Trade

/-! The trades of one command. -/

theorem process_of_ok [UUID.Parser] {db later : Database} {handling : Handling}
    (done : db.handleEnvelope handling.counter handling.envelope = .ok later) :
    db.process handling = later := by
  unfold process
  rw [done]

/-- Whatever the worker writes on its way through the envelopes fits. -/
def RoomFor [UUID.Parser]
    (db : Database) (token : Nat) (envelopes : List EventEnvelope) :
    Prop :=
  Along process (fun db handling => db.HasRoom handling.envelope.data) db
    (envelopes.map (Handling.mk (some token)))

instance [UUID.Parser]
    (db : Database) (token : Nat) (envelopes : List EventEnvelope) :
    Decidable (db.RoomFor token envelopes) :=
  inferInstanceAs (Decidable (Along _ _ _ _))

theorem RoomFor.tail [UUID.Parser] {db later : Database} {token : Nat}
    {envelope : EventEnvelope} {envelopes : List EventEnvelope}
    (room : db.RoomFor token (envelope :: envelopes))
    (done : db.handleEnvelope (some token) envelope = .ok later) :
    later.RoomFor token envelopes := by
  have rest := room.2
  rw [process_of_ok done] at rest
  exact rest

structure Follows (db later : Database) (trades : List Trade)
    (cash held : String → Int) : Prop where
  mirrors : later.Mirrors (fun userID => cash userID + Leg.cash.net trades userID)
    (fun key => held key + Leg.shares.net trades key)
  volume : ∀ id, later.events.lookup id = (db.events.lookup id).map
    (· + 10000 * turnover trades id.text)
  kept : db.RowsKept later

theorem Follows.refl {db : Database} {cash held : String → Int}
    (mirrors : db.Mirrors cash held) : db.Follows db [] cash held where
  mirrors := by simpa using mirrors
  volume := by
    intro id
    cases db.events.lookup id <;> simp
  kept := .refl db

theorem Follows.trans {first second third : Database}
    {trades more : List Trade} {cash held : String → Int}
    (left : first.Follows second trades cash held)
    (right : second.Follows third more
      (fun userID => cash userID + Leg.cash.net trades userID)
      (fun key => held key + Leg.shares.net trades key)) :
    first.Follows third (trades ++ more) cash held where
  mirrors := by
    simp only [Leg.net_append, ← Int.add_assoc]
    exact right.mirrors
  volume := by
    intro id
    rw [right.volume, left.volume, Option.map_map]
    congr 1
    funext volume
    rw [Function.comp_apply, turnover_append]
    omega
  kept := left.kept.trans right.kept

theorem Follows.of_orders {db : Database} {orders : FiniteMap UUID OrderRow}
    {cash held : String → Int} (mirrors : db.Mirrors cash held)
    (kept : db.RowsKept { db with orders := orders }) :
    db.Follows { db with orders := orders } [] cash held where
  mirrors := by
    simp only [Leg.net_nil, Int.add_zero]
    exact ⟨mirrors.balances, mirrors.shares⟩
  volume := (Follows.refl mirrors).volume
  kept := kept

private theorem handle_trade_follows [UUID.Parser]
    {db : Database} {token : Nat} {trade : Trade}
    {envelope : EventEnvelope}
    (stamped : Stamps token (.tradeExecuted trade) envelope)
    (proper : trade.Proper) (has : db.HasTrade trade)
    {known : List String} (among : db.TradesAmong known)
    (new : ∀ id ∈ envelope.tradeID?, id ∉ known)
    (room : db.HasRoom envelope.data)
    (covered : ∀ {id balance}, db.users.lookup id = some balance →
      id.text = trade.buyerID → 10000 * trade.cost.toInt ≤ balance)
    {cash held : String → Int} (mirrors : db.Mirrors cash held) :
    ∃ later, db.handleEnvelope (some token) envelope = .ok later ∧
      db.Follows later [trade] cash held ∧
      later.TradesAmong (known ++ envelope.tradeID?.toList) := by
  have isData := stamped.2
  obtain ⟨tradeID, isID, handled⟩ := handleEnvelope_current db stamped
  change envelope.tradeID? = some tradeID.text at isID
  have isEnvelope : envelope.data =
      .tradeExecuted (some (trade.data tradeID.text)) := by
    obtain ⟨otherID, isOther⟩ := isData
    rw [EventEnvelope.tradeID?, isOther] at isID
    have same : otherID.text = tradeID.text := Option.some.inj isID
    rw [isOther, UUID.text_injective same]
    rfl
  have unsettled : db.trades.lookup tradeID = none := by
    by_contra settled
    exact new tradeID.text isID (among tradeID settled)
  obtain ⟨keys, isOf⟩ := proper.keys tradeID
  rw [isEnvelope] at room
  obtain ⟨later, done, settles⟩ := handleTradeExecuted_settles
    (settleable proper isOf has unsettled covered)
    (room keys isOf.names.keys?) (isOf.valid proper) isOf.names
  change db.handleEvent (.tradeExecuted (some (trade.data tradeID.text))) = _
    at done
  refine ⟨later, handled.trans done, ⟨mirrors.settles proper isOf settles,
    settles.lookup_volume proper isOf, rowsKept_of_ok done⟩, ?_⟩
  intro uuid recorded
  obtain ⟨_, row, _, _, _, trades⟩ := settles.trades
  rw [trades, isOf.own, FiniteMap.lookup_insert_eq] at recorded
  rw [isID]
  split at recorded
  · rename_i same
    rw [same]
    simp
  · exact List.mem_append_left _ (among uuid recorded)

private theorem drain_trades_follow [UUID.Parser]
    {trades : List Trade} {db : Database} {token : Nat}
    {envelopes : List EventEnvelope}
    (stamped : List.Forall₂ (Stamps token) (trades.map .tradeExecuted) envelopes)
    (proper : ∀ trade ∈ trades, trade.Proper)
    (has : ∀ trade ∈ trades, db.HasTrade trade)
    (distinct : (tradeIDs envelopes).Nodup) {known : List String}
    (among : db.TradesAmong known)
    (new : ∀ id ∈ tradeIDs envelopes, id ∉ known)
    (room : db.RoomFor token envelopes) {cash held : String → Int}
    (covered : ∀ userID,
      Transfer.paid userID (trades.map Leg.cash.transfer) ≤ cash userID)
    (mirrors : db.Mirrors cash held) :
    ∃ later, db.drain (some token) envelopes = .ok later ∧
      db.Follows later trades cash held ∧
      later.TradesAmong (known ++ tradeIDs envelopes) := by
  induction trades generalizing db envelopes known cash held with
  | nil =>
      cases stamped
      exact ⟨db, rfl, .refl mirrors, by simpa [tradeIDs] using among⟩
  | cons trade trades induction =>
      cases stamped with
      | @cons _ envelope _ envelopes headStamped tailStamped =>
          rw [tradeIDs_cons] at distinct new ⊢
          rw [List.nodup_append] at distinct
          have amount : ∀ other ∈ trade :: trades, 0 ≤ other.cost.toInt := by
            intro other member
            have fine := proper other member
            rw [fine.exact]
            exact Int.mul_nonneg (Int.le_of_lt fine.quantity) fine.price
          have nonneg : ∀ transfer ∈ trades.map Leg.cash.transfer,
              0 ≤ transfer.amount.toInt := by
            intro transfer member
            obtain ⟨other, isOther, rfl⟩ := List.mem_map.mp member
            exact amount other (by simp [isOther])
          obtain ⟨middle, handled, follows, nowAmong⟩ := handle_trade_follows
            headStamped (proper trade (by simp)) (has trade (by simp)) among
            (fun id isID => new id
              (List.mem_append_left _ (Option.mem_toList.mpr isID)))
            room.1
            (by
              intro id balance found isBuyer
              have all := covered id.text
              have rest := Transfer.paid_nonneg nonneg id.text
              rw [mirrors.balances found]
              rw [List.map_cons, Transfer.paid_cons] at all
              change (if trade.buyerID = id.text then trade.cost.toInt else 0) +
                _ ≤ _ at all
              rw [if_pos isBuyer.symm] at all
              omega) mirrors
          obtain ⟨later, done, rest, finallyAmong⟩ := induction tailStamped
            (fun other member => proper other (by simp [member]))
            (fun other member => (has other (by simp [member])).kept follows.kept)
            distinct.2.1 nowAmong
            (by
              intro id member earlier
              rcases List.mem_append.mp earlier with old | own
              · exact new id (List.mem_append_right _ member) old
              · exact distinct.2.2 id own id member rfl)
            (room.tail handled)
            (by
              intro userID
              have all := covered userID
              have received : 0 ≤ (if (Leg.cash.transfer trade).payee = userID
                  then (Leg.cash.transfer trade).amount.toInt else 0) := by
                split
                · exact amount trade (by simp)
                · exact Int.le_refl 0
              rw [List.map_cons, Transfer.paid_cons] at all
              rw [Leg.net_cons, Leg.net_nil]
              omega)
            follows.mirrors
          refine ⟨later, ?_, follows.trans rest, ?_⟩
          · rw [drain_cons]
            exact bind_ok.mpr ⟨middle, handled, done⟩
          · rw [← List.append_assoc]
            exact finallyAmong

def knowsUser [UUID.Parser] (db : Database) (userID : String) : Bool :=
  (UUID.parse userID).any fun id => (db.users.lookup id).isSome

def knowsEvent [UUID.Parser] (db : Database) (eventID : String) : Bool :=
  (UUID.parse eventID).any fun id => (db.events.lookup id).isSome

theorem knowsUser_lookup [UUID.Parser] {db : Database} {id : UUID}
    (knows : db.knowsUser id.text = true) : db.users.lookup id ≠ none := by
  rw [knowsUser, UUID.parse_text] at knows
  exact Option.isSome_iff_ne_none.mp knows

theorem knowsEvent_lookup [UUID.Parser] {db : Database} {id : UUID}
    (knows : db.knowsEvent id.text = true) : db.events.lookup id ≠ none := by
  rw [knowsEvent, UUID.parse_text] at knows
  exact Option.isSome_iff_ne_none.mp knows

structure Refers [UUID.Parser] (db : Database) (order : Order) : Prop where
  id : Canonical order.id
  userID : Canonical order.userID
  eventID : Canonical order.eventID
  user : db.knowsUser order.userID = true
  event : db.knowsEvent order.eventID = true

instance [UUID.Parser]
    (db : Database) (order : Order) : Decidable (db.Refers order) :=
  decidable_of_iff
    (Canonical order.id ∧ Canonical order.userID ∧ Canonical order.eventID ∧
      db.knowsUser order.userID = true ∧ db.knowsEvent order.eventID = true)
    ⟨fun ⟨id, userID, eventID, user, event⟩ =>
      ⟨id, userID, eventID, user, event⟩,
    fun ⟨id, userID, eventID, user, event⟩ =>
      ⟨id, userID, eventID, user, event⟩⟩

private theorem Refers.terms [UUID.Parser] {db : Database} {left right : Order}
    (refers : db.Refers right) (same : left.SameTerms right)
    (id : Canonical left.id) : db.Refers left := by
  refine ⟨id, ?_, ?_, ?_, ?_⟩
  · rw [same.userID]
    exact refers.userID
  · rw [same.eventID]
    exact refers.eventID
  · rw [same.userID]
    exact refers.user
  · rw [same.eventID]
    exact refers.event

def Registers (db : Database) (engine : Engine) : Prop :=
  ∀ {id : UUID} {order}, engine.orders.lookup id.text = some order →
    db.orders.lookup id ≠ none

def HasOrder (db : Database) (orderID : String) : Prop :=
  ∀ {id : UUID}, id.text = orderID → db.orders.lookup id ≠ none

section Accepted

variable [UUID.Parser]

variable {engine : Engine} {order : Order}
  (wellFormed : WellFormed engine) (submitted : order.Submitted)
  (limit : order.orderType = .orderTypeLimit)
  (fresh : engine.orders.lookup order.id = none)
  {start db : Database} (kept : start.RowsKept db)
  (refers : start.Refers order)
  (others : ∀ {id found}, engine.orders.lookup id = some found →
    start.Refers found)

include wellFormed submitted fresh refers others in
private theorem tradesFor_proper (exact : ∀ trade ∈ engine.tradesFor order,
      trade.cost.toInt = trade.exactCost) {trade : Trade}
    (member : trade ∈ engine.tradesFor order) : trade.Proper := by
  obtain ⟨quantity, price⟩ := tradesFor_positive wellFormed submitted member
  have isExact := exact trade member
  obtain ⟨fill, isFill, rfl⟩ := List.mem_map.mp member
  have maker := others (fillsFor_maker wellFormed isFill).1
  have different := isCounterparty_user
    (fillsFor_counterparty submitted isFill).1
  have users : Canonical (fill.trade order).buyerID ∧
      Canonical (fill.trade order).sellerID ∧
      (fill.trade order).sellerID ≠ (fill.trade order).buyerID := by
    simp only [Fill.trade, buildTrade]
    cases order.side with
    | sideBuy => exact ⟨refers.userID, maker.userID, different⟩
    | sideSell => exact ⟨maker.userID, refers.userID, different.symm⟩
  exact
    { orderID := refers.id
      matchOrderID := maker.id
      eventID := refers.eventID
      buyerID := users.1
      sellerID := users.2.1
      otherOrder := fillsFor_ne_fresh wellFormed fresh isFill
      otherUser := users.2.2
      quantity := quantity
      price := Int.le_of_lt price
      exact := isExact }

include wellFormed kept refers others in
private theorem tradesFor_has (registers : db.Registers engine)
    (created : db.HasOrder order.id) {trade : Trade}
    (member : trade ∈ engine.tradesFor order) :
    db.HasTrade trade := by
  obtain ⟨fill, isFill, rfl⟩ := List.mem_map.mp member
  have present := (fillsFor_maker wellFormed isFill).1
  have maker := others present
  have user : ∀ {found : Order}, start.Refers found → ∀ {id : UUID},
      id.text = found.userID → db.users.lookup id ≠ none := by
    intro found foundRefers id isID
    apply kept.users
    apply knowsUser_lookup
    rw [isID]
    exact foundRefers.user
  have users : (∀ {id : UUID}, id.text = (fill.trade order).buyerID →
        db.users.lookup id ≠ none) ∧
      ∀ {id : UUID}, id.text = (fill.trade order).sellerID →
        db.users.lookup id ≠ none := by
    simp only [Fill.trade, buildTrade]
    cases order.side with
    | sideBuy => exact ⟨user refers, user maker⟩
    | sideSell => exact ⟨user maker, user refers⟩
  refine ⟨created, ?_, ?_, users.1, users.2⟩
  · intro id isID
    change id.text = fill.maker.id at isID
    rw [← isID] at present
    exact registers present
  · intro id isID
    apply kept.events
    apply knowsEvent_lookup
    rw [isID]
    exact refers.event

include submitted limit kept refers in
private theorem handle_created_follows {token : Nat} {envelope : EventEnvelope}
    (stamped : Stamps token (.orderCreated (engine.registered order)) envelope)
    (room : db.HasRoom envelope.data) {cash held : String → Int}
    (mirrors : db.Mirrors cash held) :
    ∃ later, db.handleEnvelope (some token) envelope = .ok later ∧
      db.Follows later [] cash held ∧ later.trades = db.trades ∧
      later.HasOrder order.id := by
  obtain ⟨tradeID, _, handled⟩ := handleEnvelope_current db stamped
  obtain ⟨_, otherID, isData⟩ := stamped
  rw [isData] at room
  obtain ⟨quantity, price⟩ : InColumn (numericFromInt order.quantity) ∧
    InColumn (numericFromScaled order.price) := room
  obtain ⟨id, isID⟩ := Canonical.text refers.id
  obtain ⟨userID, isUser⟩ := Canonical.text refers.userID
  obtain ⟨eventID, isEvent⟩ := Canonical.text refers.eventID
  have user : db.users.lookup userID ≠ none := by
    apply kept.users
    apply knowsUser_lookup
    rw [isUser]
    exact refers.user
  have event : db.events.lookup eventID ≠ none := by
    apply kept.events
    apply knowsEvent_lookup
    rw [isEvent]
    exact refers.event
  have parsed : ∀ {uuid : UUID} {text}, uuid.text = text →
      UUID.parse text = some uuid := by
    rintro uuid _ rfl
    exact UUID.parse_text uuid
  obtain ⟨row, checked⟩ := (row_ok_iff submitted id eventID userID).mpr (by
    have positive := submitted.price limit
    unfold InColumn numericFromInt decimalLimit at quantity
    unfold InColumn numericFromScaled decimalLimit at price
    omega)
  obtain ⟨later, done⟩ : ∃ later, db.handleOrderCreated
      (some (engine.registered order).data) = .ok later :=
    (handleOrderCreated_ok_iff (parsed isEvent) (parsed isUser) event
      user).mpr ⟨id, row, parsed isID, checked⟩
  have written := rowsKept_of_ok (show db.handleEvent
    (.orderCreated (some (engine.registered order).data)) = .ok later from done)
  refine ⟨later, handled.trans done, ?_⟩
  obtain ⟨data, foundID, _, _, isOrder, foundParsed, _, _, effect⟩ :=
    handleOrderCreated_effect done
  cases isOrder
  cases (parsed isID).symm.trans foundParsed
  have own : ∀ {other : UUID}, other.text = order.id → other = id := by
    intro other isOther
    exact UUID.text_injective (isOther.trans isID.symm)
  rcases effect with ⟨unique, rfl⟩ | insertion
  · refine ⟨.refl mirrors, rfl, ?_⟩
    intro other isOther
    cases own isOther
    exact insertOrder_unique unique
  · obtain ⟨inserted, rfl, _⟩ := insertOrder_ok insertion
    refine ⟨.of_orders mirrors written, rfl, ?_⟩
    intro other isOther
    cases own isOther
    change Finmap.lookup id (db.orders.insert id inserted) ≠ none
    rw [FiniteMap.lookup_insert_eq, if_pos rfl]
    simp

include wellFormed submitted limit fresh kept refers others in
private theorem drain_accepted_follows (registers : db.Registers engine)
    (exact : ∀ trade ∈ engine.tradesFor order,
      trade.cost.toInt = trade.exactCost)
    {token : Nat} {envelopes : List EventEnvelope}
    (stamped : List.Forall₂ (Stamps token)
      (.orderCreated (engine.registered order) ::
        (engine.tradesFor order).map .tradeExecuted) envelopes)
    (distinct : (tradeIDs envelopes).Nodup) {known : List String}
    (among : db.TradesAmong known)
    (new : ∀ id ∈ tradeIDs envelopes, id ∉ known)
    (room : db.RoomFor token envelopes) {cash held : String → Int}
    (covered : ∀ userID, Transfer.paid userID
      ((engine.tradesFor order).map Leg.cash.transfer) ≤ cash userID)
    (mirrors : db.Mirrors cash held) :
    ∃ later, db.drain (some token) envelopes = .ok later ∧
      db.Follows later (engine.tradesFor order) cash held ∧
      later.TradesAmong (known ++ tradeIDs envelopes) ∧
      later.HasOrder order.id := by
  cases stamped with
  | @cons _ creation _ envelopes created tradesStamped =>
      obtain ⟨_, isID, _⟩ := handleEnvelope_current db created
      change creation.tradeID? = none at isID
      have ids : tradeIDs (creation :: envelopes) = tradeIDs envelopes := by
        rw [tradeIDs_cons, isID]
        rfl
      rw [ids] at distinct new ⊢
      obtain ⟨middle, handled, follows, sameTrades, ownRow⟩ :=
        handle_created_follows submitted limit kept refers created room.1
          mirrors
      obtain ⟨later, done, rest, nowAmong⟩ := drain_trades_follow tradesStamped
        (fun trade member => tradesFor_proper wellFormed submitted fresh refers
          others exact member)
        (fun trade member => tradesFor_has wellFormed
          (kept.trans follows.kept) refers others
          (fun present => follows.kept.orders (registers present)) ownRow
          member)
        distinct (among.mono (fun _ member => member) sameTrades) new
        (room.tail handled)
        (by
          intro userID
          rw [Leg.net_nil, Int.add_zero]
          exact covered userID)
        follows.mirrors
      refine ⟨later, ?_, follows.trans rest, nowAmong, ?_⟩
      · rw [drain_cons]
        exact bind_ok.mpr ⟨middle, handled, done⟩
      · intro id isID
        exact rest.kept.orders (ownRow isID)

end Accepted

private theorem drain_canceled_follows [UUID.Parser] {db : Database}
    {token : Nat}
    {orderID : String} (canonical : Canonical orderID)
    {envelopes : List EventEnvelope}
    (stamped : List.Forall₂ (Stamps token) [.orderCanceled orderID] envelopes)
    {known : List String} (among : db.TradesAmong known)
    {cash held : String → Int} (mirrors : db.Mirrors cash held) :
    ∃ later, db.drain (some token) envelopes = .ok later ∧
      db.Follows later [] cash held ∧
      later.TradesAmong (known ++ tradeIDs envelopes) := by
  cases stamped with
  | @cons _ envelope _ _ isCancel rest =>
      cases rest
      obtain ⟨_, _, handled⟩ := handleEnvelope_current db isCancel
      obtain ⟨id, isID⟩ := Canonical.text canonical
      obtain ⟨later, done⟩ : ∃ later,
          db.handleOrderCanceled (some orderID) = .ok later := by
        refine ⟨db.updateOrderStatus id .statusCanceled, ?_⟩
        rw [← isID]
        exact bind_ok.mpr ⟨_, rfl, bind_ok.mpr
          ⟨id, present_ok.mpr (UUID.parse_text id), rfl⟩⟩
      have kept := rowsKept_of_ok
        (show db.handleEvent (.orderCanceled (some orderID)) = .ok later
          from done)
      refine ⟨later, ?_, ?_⟩
      · rw [drain_cons]
        exact bind_ok.mpr ⟨later, handled.trans done, rfl⟩
      · cases handleOrderCanceled_writes done with
        | orders orders =>
            refine ⟨.of_orders mirrors kept, among.mono ?_ rfl⟩
            intro old member
            exact List.mem_append_left _ member

private theorem drain_quiet_follows [UUID.Parser]
    {engine later : Engine} {db : Database}
    (registers : db.Registers engine) (orders : later.orders = engine.orders)
    {token : Nat} {envelopes : List EventEnvelope}
    (stamped : List.Forall₂ (Stamps token) [] envelopes)
    {known : List String} (among : db.TradesAmong known)
    {cash held : String → Int} (mirrors : db.Mirrors cash held) :
    ∃ final, db.drain (some token) envelopes = .ok final ∧
      db.Follows final [] cash held ∧
      final.TradesAmong (known ++ tradeIDs envelopes) ∧
      final.Registers later := by
  cases stamped
  refine ⟨db, rfl, .refl mirrors, by simpa [tradeIDs] using among, ?_⟩
  intro id order present
  rw [orders] at present
  exact registers present

/-! One command. -/

/-- The command submits no market order, only orders of users with an entry,
and of users and events that the tables have. Nothing it does wraps. -/
structure MirrorCommand [UUID.Parser]
    (db : Database) (history : History) (input : Input) :
    Prop where
  cash : LimitCommand history input
  shares : SharesFit history.engine input
  entered : ∀ order ∈ input.order?,
    history.engine.balances.lookup order.userID ≠ none
  refers : ∀ order ∈ input.order?, db.Refers order

instance [UUID.Parser] (db : Database) (history : History) (input : Input) :
    Decidable (db.MirrorCommand history input) :=
  decidable_of_iff
    (LimitCommand history input ∧ SharesFit history.engine input ∧
      (∀ order ∈ input.order?,
        history.engine.balances.lookup order.userID ≠ none) ∧
      ∀ order ∈ input.order?, db.Refers order)
    ⟨fun ⟨cash, shares, entered, refers⟩ => ⟨cash, shares, entered, refers⟩,
      fun ⟨cash, shares, entered, refers⟩ => ⟨cash, shares, entered, refers⟩⟩

structure Ledger [UUID.Parser]
    (start : Database) (history : History) : Prop where
  trading : LimitTrading history
  reserved : SharesReserved history
  owners : OwnersEntered history.engine
  refers : ∀ {id order}, history.engine.orders.lookup id = some order →
    start.Refers order

section Step

variable [UUID.Parser]

variable {start : Database} {history : History} {input : Input}
  (ledger : start.Ledger history) (command : start.MirrorCommand history input)

include ledger command

theorem Ledger.step : start.Ledger (history.step input) where
  trading := limitTrading_step ledger.trading command.cash
  reserved := sharesReserved_step ledger.reserved command.shares
    command.cash.emitted
  owners := ownersEntered_step ledger.trading ledger.owners
    command.entered
  refers := by
    intro id found present
    have wellFormed := ledger.reserved.wellFormed
    have ownID := (wellFormed_step wellFormed input).keyed _ _ present
    rcases step_terms wellFormed input present with
      ⟨old, oldPresent, same⟩ | ⟨order, admitted, isID, same⟩
    · have refers := ledger.refers oldPresent
      refine refers.terms same ?_
      rw [ownID, ← wellFormed.keyed _ _ oldPresent]
      exact refers.id
    · have refers := command.refers order (admitted?_spec admitted).1
      refine refers.terms same ?_
      rw [ownID, isID]
      exact refers.id

private theorem drain_step_follows {db : Database} (kept : start.RowsKept db)
    (registers : db.Registers history.engine) {token : Nat}
    {envelopes : List EventEnvelope}
    (stamped : List.Forall₂ (Stamps token) (history.engine.step input).events
      envelopes)
    (distinct : (tradeIDs envelopes).Nodup) {known : List String}
    (among : db.TradesAmong known)
    (new : ∀ id ∈ tradeIDs envelopes, id ∉ known)
    (room : db.RoomFor token envelopes)
    (mirrors : db.Mirrors history.engine.worth
      (Leg.shares.holdings history.engine)) :
    ∃ later, db.drain (some token) envelopes = .ok later ∧
      db.Follows later (history.engine.step input).trades history.engine.worth
        (Leg.shares.holdings history.engine) ∧
      later.TradesAmong (known ++ tradeIDs envelopes) ∧
      later.Registers (history.engine.step input).engine := by
  have wellFormed := ledger.reserved.wellFormed
  have sound := ledger.trading.inRange.cash.sound
  have paid := Leg.paid_step wellFormed sound
    ledger.trading.solvent.solvent (ledger.trading.handles command.cash)
  have terms := @step_terms history.engine wellFormed input
  have effect := step_effect history.engine input
  generalize history.engine.step input = reply at effect stamped paid terms ⊢
  cases effect with
  | unchanged response _ _ =>
      exact drain_quiet_follows registers rfl stamped among mirrors
  | opened order message _ _ _ _ =>
      exact drain_quiet_follows registers (opened_orders history.engine order)
        stamped among mirrors
  | dropped order market _ _ _ _ lost =>
      rw [command.cash.emitted] at lost
      contradiction
  | accepted order market submitted fresh hasMarket affords announced =>
      have valid := Input.order?_submitted submitted
      have admitted := admitted?_eq submitted fresh hasMarket affords
      rw [announceAndMatch_enrolled wellFormed valid fresh hasMarket]
        at stamped paid terms ⊢
      obtain ⟨later, done, follows, nowAmong, created⟩ :=
        drain_accepted_follows wellFormed valid
          (command.cash.limit order submitted) fresh kept
          (command.refers order submitted) ledger.refers registers
          (fun trade member => cost_exact wellFormed valid sound
            (command.cash.fits.proceeds order admitted announced) member)
          stamped distinct among new room
          (fun userID => (paid userID).trans (holdings_le_worth _ userID))
          mirrors
      refine ⟨later, done, follows, nowAmong, ?_⟩
      intro id found present
      rcases terms present with
        ⟨old, oldPresent, _⟩ | ⟨own, ownAdmitted, isID, _⟩
      · exact follows.kept.orders (registers oldPresent)
      · cases admitted.symm.trans ownAdmitted
        exact created isID
  | canceled req order market _ present live hasMarket _ =>
      have ownID := wellFormed.keyed _ _ present
      rw [← ownID] at present
      obtain ⟨later, done, follows, nowAmong⟩ := drain_canceled_follows
        (ledger.refers present).id stamped among mirrors
      refine ⟨later, done, follows, nowAmong, ?_⟩
      intro id found nowPresent
      apply follows.kept.orders
      obtain ⟨lock, lookedUp⟩ := lookup_cancel history.engine order market
        id.text
      rw [lookedUp] at nowPresent
      split at nowPresent
      · rename_i same
        rw [← same] at present
        exact registers present
      · exact registers nowPresent
  | marketCreated eventID _ _ =>
      exact drain_quiet_follows registers rfl stamped among mirrors
  | userFunded userID _ _ =>
      exact drain_quiet_follows registers rfl stamped among mirrors

theorem mirrors_step {later : Database}
    (mirrors : later.Mirrors
      (fun userID => history.engine.worth userID +
        Leg.cash.net (history.engine.step input).trades userID)
      (fun key => Leg.shares.holdings history.engine key +
        Leg.shares.net (history.engine.step input).trades key)) :
    later.Mirrors (history.step input).engine.worth
      (Leg.shares.holdings (history.step input).engine) := by
  have cash : (history.step input).engine.worth = fun userID =>
      history.engine.worth userID +
        Leg.cash.net (history.engine.step input).trades userID := by
    funext userID
    exact worth_step ledger.trading command.cash ledger.owners command.entered
      userID
  have held : Leg.shares.holdings (history.step input).engine = fun key =>
      Leg.shares.holdings history.engine key +
        Leg.shares.net (history.engine.step input).trades key := by
    funext key
    exact Leg.holdings_step ledger.reserved.wellFormed ledger.reserved.sound
      (fun other => le_of_eq (ledger.reserved.balanced other).symm)
      (ledger.reserved.handles command.shares command.cash.emitted)
      command.cash.emitted (by
        intro impossible
        cases impossible)
  rw [cash, held]
  exact mirrors

end Step

/-! Whole runs. -/

private theorem runFrom_process_of_drain [UUID.Parser]
    {db later : Database} {token : Nat}
    {envelopes : List EventEnvelope}
    (done : db.drain (some token) envelopes = .ok later) :
    runFrom process db (envelopes.map (Handling.mk (some token))) = later := by
  induction envelopes generalizing db with
  | nil =>
      cases done
      rfl
  | cons envelope envelopes induction =>
      rw [drain_cons] at done
      obtain ⟨middle, handled, rest⟩ := bind_ok.mp done
      rw [← induction rest, List.map_cons]
      change runFrom process (process db ⟨some token, envelope⟩) _ = _
      rw [process_of_ok handled]

structure Projects (start db : Database) (history : History) : Prop where
  mirrors : db.Mirrors history.engine.worth
    (Leg.shares.holdings history.engine)
  volume : ∀ id, db.events.lookup id = (start.events.lookup id).map
    (· + 10000 * turnover history.trades id.text)
  kept : start.RowsKept db
  registers : db.Registers history.engine

/-- The worker gets through what the engine has emitted. -/
structure Projected [UUID.Parser] (start : Database) (known : List String)
    (history : History) (emitting : Emitting) : Prop where
  same : emitting.engine = history.engine
  ledger : start.Ledger history
  drains : ∀ {token : Nat} {envelopes : List EventEnvelope},
    List.Forall₂ (Stamps token) emitting.events envelopes →
    (tradeIDs envelopes).Nodup →
    (∀ id ∈ tradeIDs envelopes, id ∉ known) →
    start.RoomFor token envelopes →
      ∃ db, start.drain (some token) envelopes = .ok db ∧
        start.Projects db history ∧
        db.TradesAmong (known ++ tradeIDs envelopes)

theorem Projected.step [UUID.Parser] {start : Database} {known : List String}
    {history : History} {emitting : Emitting}
    (projected : start.Projected known history emitting) {input : Input}
    (command : start.MirrorCommand history input) :
    start.Projected known (history.step input) (emitting.step input) := by
  have ledger := projected.ledger
  have same := projected.same
  refine ⟨?_, ledger.step command, ?_⟩
  · simp only [Emitting.step, History.step, same]
  intro token envelopes stamped distinct new room
  simp only [Emitting.step, same] at stamped
  -- the envelopes of the run so far, then those of this command
  have before := (List.forall₂_take_append _ _ _ stamped.flip).flip
  have after := (List.forall₂_drop_append _ _ _ stamped.flip).flip
  rw [← List.take_append_drop emitting.events.length envelopes]
    at distinct new room ⊢
  generalize envelopes.take emitting.events.length = first at *
  generalize envelopes.drop emitting.events.length = second at *
  rw [tradeIDs_append] at distinct new ⊢
  rw [List.nodup_append'] at distinct
  obtain ⟨distinctBefore, distinctAfter, apart⟩ := distinct
  rw [RoomFor, List.map_append, along_append] at room
  obtain ⟨middle, doneBefore, projects, among⟩ := projected.drains before
    distinctBefore
    (fun id member => new id (List.mem_append_left _ member)) room.1
  rw [runFrom_process_of_drain doneBefore] at room
  obtain ⟨later, doneAfter, follows, nowAmong, registers⟩ :=
    drain_step_follows ledger command projects.kept projects.registers after
      distinctAfter among
      (by
        intro id member earlier
        rcases List.mem_append.mp earlier with old | own
        · exact new id (List.mem_append_right _ member) old
        · exact apart own member)
      room.2 projects.mirrors
  refine ⟨later, ?_, ⟨?_, ?_, ?_, registers⟩, ?_⟩
  · rw [drain_append]
    exact bind_ok.mpr ⟨middle, doneBefore, doneAfter⟩
  · exact mirrors_step ledger command follows.mirrors
  · intro id
    rw [follows.volume, projects.volume, Option.map_map]
    congr 1
    funext volume
    simp only [Function.comp_apply, History.step, turnover_append]
    omega
  · exact projects.kept.trans follows.kept
  · rw [← List.append_assoc]
    exact nowAmong

private theorem projected_initially [UUID.Parser]
    {balances positions : Accounts String}
    (balancesFree : balances.Unreserved) (positionsFree : positions.Unreserved)
    {start : Database}
    (equal : start.Mirrors (Engine.seeded balances positions).worth
      (Leg.shares.holdings (Engine.seeded balances positions)))
    {known : List String} (among : start.TradesAmong known) :
    start.Projected known (History.start (Engine.seeded balances positions))
      ⟨Engine.seeded balances positions, []⟩ := by
  refine ⟨rfl, ⟨limitTrading_start balancesFree positions,
    sharesReserved_start balances positionsFree, ?_, ?_⟩, ?_⟩
  · intro id order present
    contradiction
  · intro id order present
    contradiction
  · intro token envelopes stamped _ _ _
    cases stamped
    refine ⟨start, rfl, ⟨equal, (Follows.refl equal).volume, .refl start, ?_⟩,
      by simpa [tradeIDs] using among⟩
    intro id order present
    contradiction

/-- The tables and the ledger agree on what every user has, and the volumes
have grown by what was traded. Amounts of the tables count in units of
10^-8, cash of the ledger in units of 10^-4. -/
structure Agrees (start db : Database) (history : History) : Prop where
  balance : ∀ id balance account, db.users.lookup id = some balance →
    history.engine.balances.lookup id.text = some account →
      balance = 10000 * (account.available.toInt + account.reserved.toInt)
  shares : ∀ id, db.shares id = 100000000 *
    ((history.engine.positions.account (PositionID.key id)).available.toInt +
      (history.engine.positions.account (PositionID.key id)).reserved.toInt)
  volume : ∀ id, db.events.lookup id = (start.events.lookup id).map
    (· + 10000 * turnover history.trades id.text)

private theorem Projects.agrees {start db : Database} {history : History}
    (projects : start.Projects db history) : start.Agrees db history where
  balance := by
    intro id balance account found entered
    rw [projects.mirrors.balances found, Engine.worth, entered]
    rfl
  shares := projects.mirrors.shares
  volume := projects.volume

private theorem known_trades {start : Database} {ids : List String}
    (new : ∀ id : UUID, id.text ∈ ids → start.trades.lookup id = none) :
    ∃ known, start.TradesAmong known ∧ ∀ id ∈ ids, id ∉ known := by
  refine ⟨start.trades.keys.toList.map UUID.text, ?_, ?_⟩
  · intro uuid there
    apply List.mem_map_of_mem
    rw [Finset.mem_toList, Finmap.mem_keys]
    exact Finmap.mem_iff.mpr (Option.ne_none_iff_exists'.mp there)
  · intro id member known
    obtain ⟨uuid, isKey, rfl⟩ := List.mem_map.mp known
    rw [Finset.mem_toList, Finmap.mem_keys, Finmap.mem_iff] at isKey
    obtain ⟨row, found⟩ := isKey
    rw [new uuid member] at found
    cases found

/-- Under limit trading the worker gets through every event of the engine, no
buyer is short in the tables, and the tables agree with the ledger
afterwards. -/
theorem drain_agrees [UUID.Parser] {balances positions : Accounts String}
    (balancesFree : balances.Unreserved) (positionsFree : positions.Unreserved)
    {start : Database}
    (equal : start.Mirrors (Engine.seeded balances positions).worth
      (Leg.shares.holdings (Engine.seeded balances positions)))
    {inputs : List Input}
    (meets : MeetsAlong start.MirrorCommand balances positions inputs)
    {token : Nat} {envelopes : List EventEnvelope}
    (stamped : List.Forall₂ (Stamps token)
      (runEmitting balances positions inputs).events envelopes)
    (distinct : (tradeIDs envelopes).Nodup)
    (new : ∀ id : UUID, id.text ∈ tradeIDs envelopes →
      start.trades.lookup id = none)
    (room : start.RoomFor token envelopes) :
    ∃ final, start.drain (some token) envelopes = .ok final ∧
      start.Agrees final (runSeeded balances positions inputs) := by
  obtain ⟨known, among, unknown⟩ := known_trades new
  have kept : ∀ history emitting input,
      start.Projected known history emitting →
      start.MirrorCommand history input →
        start.Projected known (history.step input) (emitting.step input) :=
    fun _ _ _ projected command => projected.step command
  have projected : start.Projected known (runSeeded balances positions inputs)
      (runEmitting balances positions inputs) :=
    related_runFrom (start.Projected known) kept
      (projected_initially balancesFree positionsFree equal among) meets
  obtain ⟨final, done, projects, _⟩ :=
    projected.drains stamped distinct unknown room
  exact ⟨final, done, projects.agrees⟩

def shareTables : Database where
  users := Finmap.insert (shortID 1) 10000000000
    (Finmap.insert (shortID 2) 0 ∅)
  events := Finmap.insert (shortID 3) 0 ∅
  orders := ∅
  trades := ∅
  positions := Finmap.insert ⟨shortID 2, shortID 3, .outcomeYes⟩
    ⟨500000000, 0⟩ ∅
  transactions := []

def shareBalances : Accounts String :=
  Finmap.insert (shortID 2).text ⟨0, 0⟩ ∅

def sharePositions : Accounts String :=
  Finmap.insert (PositionID.key ⟨shortID 2, shortID 3, .outcomeYes⟩) ⟨5, 0⟩ ∅

def limitSale : List Input :=
  [⟨.userCreated (some (shortID 1).text), ⟨"", true⟩⟩,
    .createEvent (shortID 3).text,
    .submit (shortID 4).text (shortID 3).text (shortID 2).text "LIMIT" "YES"
      "SELL" 5 5000,
    .submit (shortID 5).text (shortID 3).text (shortID 1).text "LIMIT" "YES"
      "BUY" 2 6000]

private theorem shareTables_mirrors :
    shareTables.Mirrors (Engine.seeded shareBalances sharePositions).worth
      (Leg.shares.holdings (Engine.seeded shareBalances sharePositions)) where
  balances := by
    intro id balance found
    simp only [shareTables, FiniteMap.lookup_insert_eq] at found
    split at found
    · rename_i same
      cases found
      rw [same]
      decide +kernel
    · split at found
      · rename_i same
        cases found
        rw [same]
        decide +kernel
      · cases found
  shares := by
    intro id
    simp only [Database.shares, shareTables, Leg.holdings, Leg.account,
      Leg.accounts, Engine.seeded, sharePositions, Accounts.account,
      FiniteMap.lookup_insert_eq]
    by_cases own : id = ⟨shortID 2, shortID 3, .outcomeYes⟩
    · rw [if_pos own, if_pos (congrArg PositionID.key own)]
      rfl
    · rw [if_neg own, if_neg fun same => own (PositionID.key_inj same)]
      rfl

theorem agrees_limitSale :
    ∃ final, shareTables.drain (some 1)
        ((runEmitting shareBalances sharePositions limitSale).events.map
          (Event.stamped 1 (shortID 6))) = .ok final ∧
      shareTables.Agrees final
        (runSeeded shareBalances sharePositions limitSale) :=
  drain_agrees (Accounts.unreserved_empty.insert _ (by decide))
    (Accounts.unreserved_empty.insert _ (by decide)) shareTables_mirrors
    (by decide +kernel) (stamps_stamped 1 (shortID 6) _) (by decide +kernel)
    (fun _ _ => rfl) (by decide +kernel)

end Database

end Predix
