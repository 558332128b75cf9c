import Predix.Data.Account

namespace Predix

open Data

/-! The engine's data model. Timestamps and generated trade ids are left out:
no function below reads them. -/

inductive Side where
  | sideBuy
  | sideSell
  deriving DecidableEq, Repr

inductive Outcome where
  | outcomeYes
  | outcomeNo
  deriving DecidableEq, Repr

inductive OrderType where
  | orderTypeLimit
  | orderTypeMarket
  deriving DecidableEq, Repr

inductive Status where
  | statusPending
  | statusPartial
  | statusFilled
  | statusCanceled
  | statusRejected
  deriving DecidableEq, Repr

def Side.parse : String → Option Side
  | "BUY" => some .sideBuy
  | "SELL" => some .sideSell
  | _ => none

def Side.opposite : Side → Side
  | .sideBuy => .sideSell
  | .sideSell => .sideBuy

def Outcome.parse : String → Option Outcome
  | "YES" => some .outcomeYes
  | "NO" => some .outcomeNo
  | _ => none

def Outcome.text : Outcome → String
  | .outcomeYes => "YES"
  | .outcomeNo => "NO"

def OrderType.parse : String → Option OrderType
  | "LIMIT" => some .orderTypeLimit
  | "MARKET" => some .orderTypeMarket
  | _ => none

/-- Prices and cash are fixed-point numbers in units of 1/10000. -/
def priceScale : Int64 := 10000

def defaultStartingBalance : Int64 := 100 * priceScale

abbrev Balance := Account

abbrev Position := Account

structure Order where
  id : String
  eventID : String
  userID : String
  orderType : OrderType
  outcome : Outcome
  side : Side
  quantity : Int64
  filledQuantity : Int64
  remainingQuantity : Int64
  price : Int64
  status : Status
  /-- What the order's reservation still freezes: cash for a BUY, shares for
  a SELL. -/
  lockedFunds : Int64
  deriving DecidableEq, Repr

def Status.live : Status → Bool
  | .statusPending => true
  | .statusPartial => true
  | .statusFilled => false
  | .statusCanceled => false
  | .statusRejected => false

structure Trade where
  /-- The incoming order. -/
  orderID : String
  /-- The resting order. -/
  matchOrderID : String
  eventID : String
  outcome : Outcome
  buyerID : String
  sellerID : String
  takerSide : Side
  quantity : Int64
  price : Int64
  deriving DecidableEq, Repr

/-- One outcome's book. A slice of order pointers is the list of the ids the
orders are registered under: an order is in the order table before any slice
can hold it, and stays there while one does. -/
structure OrderBook where
  bids : List String
  asks : List String
  deriving DecidableEq, Repr

def OrderBook.empty : OrderBook := ⟨[], []⟩

def OrderBook.slice (book : OrderBook) : Side → List String
  | .sideBuy => book.bids
  | .sideSell => book.asks

def OrderBook.setSlice (book : OrderBook) (side : Side)
    (ids : List String) : OrderBook :=
  match side with
  | .sideBuy => { book with bids := ids }
  | .sideSell => { book with asks := ids }

structure Market where
  yes : OrderBook
  no : OrderBook
  deriving DecidableEq, Repr

def newMarket : Market := ⟨OrderBook.empty, OrderBook.empty⟩

def Market.book (market : Market) : Outcome → OrderBook
  | .outcomeYes => market.yes
  | .outcomeNo => market.no

def Market.setBook (market : Market) (outcome : Outcome)
    (book : OrderBook) : Market :=
  match outcome with
  | .outcomeYes => { market with yes := book }
  | .outcomeNo => { market with no := book }

@[ext] structure Engine where
  markets : FiniteMap String Market
  orders : FiniteMap String Order
  balances : Accounts String
  positions : Accounts String

/-- An engine without orders and with empty books, over a seeded ledger. -/
def Engine.seeded (balances positions : Accounts String) : Engine :=
  ⟨∅, ∅, balances, positions⟩

def newEngine : Engine := Engine.seeded ∅ ∅

@[simp] theorem OrderBook.slice_setSlice (book : OrderBook)
    (side other : Side) (ids : List String) :
    (book.setSlice side ids).slice other =
      if other = side then ids else book.slice other := by
  cases side <;> cases other <;> rfl

@[simp] theorem Market.book_setBook (market : Market)
    (outcome other : Outcome) (book : OrderBook) :
    (market.setBook outcome book).book other =
      if other = outcome then book else market.book other := by
  cases outcome <;> cases other <;> rfl

@[simp] theorem Side.opposite_ne (side : Side) : side.opposite ≠ side := by
  cases side <;> decide

theorem Side.eq_opposite_of_ne {side other : Side} (different : other ≠ side) :
    other = side.opposite := by
  cases side <;> cases other <;> first | rfl | exact absurd rfl different

end Predix
