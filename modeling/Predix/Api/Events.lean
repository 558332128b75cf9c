import Mathlib.Data.Finset.Basic
import Predix.Replay.Growth

namespace Predix

open Data

/-! The creation of events in two stores. The handler inserts a row, has the
engine open a market, and deletes the row unless the engine answers in time
that it did. The fields of an event beyond its id are left out. -/

inductive Creation where
  | waiting
  | answered (created : Bool)
  deriving DecidableEq, Repr

structure Catalogue where
  rows : Finset String
  engine : Engine
  /-- The replies to CREATE_EVENT commands: the event, and the success. -/
  replies : List (String × Bool)
  calls : FiniteMap String Creation

inductive CatalogueAction where
  /-- The INSERT is committed. Without an answer the handler ends with an
  error. -/
  | insert (eventID : String) (confirmed : Bool)
  /-- The engine executes a command of any kind. -/
  | execute (input : Input)
  | receive (eventID : String) (success deleted : Bool)
  /-- The deadline passes, the request is canceled, or the append fails. -/
  | giveUp (eventID : String) (deleted : Bool)

/-- What is inserted is answered, and the call then ends without success only if
its DELETE succeeds. -/
def CatalogueAction.Reliable : CatalogueAction → Prop
  | .insert _ confirmed => confirmed = true
  | .receive _ success deleted => success = true ∨ deleted = true
  | .giveUp _ deleted => deleted = true
  | .execute _ => True

namespace Catalogue

def start (balances positions : Accounts String) : Catalogue :=
  ⟨∅, Engine.seeded balances positions, [], ∅⟩

/-- The handler's answer. The error of the DELETE is not looked at. -/
def finish (catalogue : Catalogue) (eventID : String) (created deleted : Bool) :
    Catalogue :=
  { catalogue with
    rows := if created ∨ ¬ deleted then catalogue.rows
      else catalogue.rows.erase eventID
    calls := catalogue.calls.insert eventID (.answered created) }

def replied (response : EngineResponse) : Command → List (String × Bool)
  | .createEvent (some eventID) => [(eventID, response.success)]
  | _ => []

def step (catalogue : Catalogue) : CatalogueAction → Catalogue
  | .insert eventID confirmed =>
      -- the id of the row is new
      if catalogue.calls.lookup eventID = none then
        { catalogue with
          rows := insert eventID catalogue.rows
          calls := catalogue.calls.insert eventID
            (if confirmed then .waiting else .answered false) }
      else
        catalogue
  | .execute input =>
      { catalogue with
        engine := (catalogue.engine.step input).engine
        replies := replied (catalogue.engine.step input).response
          input.command ++ catalogue.replies }
  | .receive eventID success deleted =>
      if catalogue.calls.lookup eventID = some .waiting ∧
          (eventID, success) ∈ catalogue.replies then
        catalogue.finish eventID success deleted
      else
        catalogue
  | .giveUp eventID deleted =>
      if catalogue.calls.lookup eventID = some .waiting then
        catalogue.finish eventID false deleted
      else
        catalogue

def run (catalogue : Catalogue) (actions : List CatalogueAction) : Catalogue :=
  runFrom step catalogue actions

def HasMarket (catalogue : Catalogue) (eventID : String) : Prop :=
  catalogue.engine.markets.lookup eventID ≠ none

structure Sound (catalogue : Catalogue) : Prop where
  wellFormed : WellFormed catalogue.engine
  replied : ∀ eventID, (eventID, true) ∈ catalogue.replies →
    catalogue.HasMarket eventID
  waiting : ∀ eventID, catalogue.calls.lookup eventID = some .waiting →
    eventID ∈ catalogue.rows
  created : ∀ eventID,
    catalogue.calls.lookup eventID = some (.answered true) →
      eventID ∈ catalogue.rows ∧ catalogue.HasMarket eventID

/-- A row is that of a call under way, or its event has a market. -/
def Listed (catalogue : Catalogue) : Prop :=
  ∀ eventID ∈ catalogue.rows,
    catalogue.calls.lookup eventID = some .waiting ∨
      catalogue.HasMarket eventID

theorem sound_start (balances positions : Accounts String) :
    (start balances positions).Sound where
  wellFormed := wellFormed_seeded balances positions
  replied := nofun
  waiting := nofun
  created := nofun

theorem hasMarket_step {catalogue : Catalogue}
    (wellFormed : WellFormed catalogue.engine) (input : Input)
    {eventID : String} (has : catalogue.HasMarket eventID) :
    (catalogue.step (.execute input)).HasMarket eventID :=
  fun absent => has ((grows_step wellFormed input).markets absent)

private theorem hasMarket_of_replied {engine : Engine} {input : Input}
    {eventID : String}
    (answer : (eventID, true) ∈
      replied (engine.step input).response input.command) :
    (engine.step input).engine.markets.lookup eventID ≠ none := by
  obtain ⟨command, surroundings⟩ := input
  cases command with
  | createEvent requested =>
      cases requested with
      | none => exact absurd answer List.not_mem_nil
      | some other =>
          rw [replied, List.mem_singleton, Prod.mk.injEq] at answer
          obtain ⟨rfl, success⟩ := answer
          change true = (handleCreateEvent engine (some eventID)).response.success
            at success
          change (handleCreateEvent engine
            (some eventID)).engine.markets.lookup eventID ≠ none
          unfold handleCreateEvent at success ⊢
          by_cases empty : eventID = ""
          · simp [empty, Reply.unchanged, EngineResponse.success] at success
          · cases found : engine.markets.lookup eventID <;>
              simp [empty, found, Reply.unchanged]
  | _ => exact absurd answer List.not_mem_nil

variable {catalogue : Catalogue}

private theorem Sound.insert (sound : catalogue.Sound) (eventID : String)
    (confirmed : Bool) :
    Sound { catalogue with
      rows := insert eventID catalogue.rows
      calls := catalogue.calls.insert eventID
        (if confirmed then .waiting else .answered false) } where
  wellFormed := sound.wellFormed
  replied := sound.replied
  waiting := by
    intro other waits
    dsimp only at waits ⊢
    rw [FiniteMap.lookup_insert_eq] at waits
    split at waits
    · rename_i same
      exact same ▸ Finset.mem_insert_self eventID catalogue.rows
    · exact Finset.mem_insert_of_mem (sound.waiting other waits)
  created := by
    intro other answered
    dsimp only at answered
    rw [FiniteMap.lookup_insert_eq] at answered
    split at answered
    · cases confirmed <;> cases answered
    · obtain ⟨listed, has⟩ := sound.created other answered
      exact ⟨Finset.mem_insert_of_mem listed, has⟩

private theorem mem_rows_finish {eventID other : String}
    {created deleted : Bool}
    (listed : other ∈ catalogue.rows)
    (kept : other = eventID → created = true) :
    other ∈ (catalogue.finish eventID created deleted).rows := by
  unfold Catalogue.finish
  dsimp only
  split
  · exact listed
  · rename_i removed
    refine Finset.mem_erase.mpr ⟨fun same => ?_, listed⟩
    exact removed (.inl (kept same))

private theorem Sound.finish (sound : catalogue.Sound) {eventID : String}
    {created deleted : Bool}
    (waits : catalogue.calls.lookup eventID = some .waiting)
    (has : created = true → catalogue.HasMarket eventID) :
    (catalogue.finish eventID created deleted).Sound where
  wellFormed := sound.wellFormed
  replied := sound.replied
  waiting := by
    intro other stillWaits
    change Finmap.lookup other (catalogue.calls.insert eventID _) = _
      at stillWaits
    rw [FiniteMap.lookup_insert_eq] at stillWaits
    split at stillWaits
    · cases stillWaits
    · rename_i different
      exact mem_rows_finish (sound.waiting other stillWaits)
        fun same => absurd same different
  created := by
    intro other answered
    change Finmap.lookup other (catalogue.calls.insert eventID _) = _ at answered
    rw [FiniteMap.lookup_insert_eq] at answered
    split at answered
    · rename_i same
      subst same
      cases answered
      exact ⟨mem_rows_finish (sound.waiting other waits) fun _ => rfl, has rfl⟩
    · rename_i different
      obtain ⟨listed, isThere⟩ := sound.created other answered
      exact ⟨mem_rows_finish listed fun same => absurd same different, isThere⟩

theorem Sound.step (sound : catalogue.Sound) (action : CatalogueAction) :
    (catalogue.step action).Sound := by
  cases action with
  | insert eventID confirmed =>
      simp only [Catalogue.step]
      split
      · exact sound.insert eventID confirmed
      · exact sound
  | execute input =>
      refine ⟨wellFormed_step sound.wellFormed input, ?_, sound.waiting, ?_⟩
      · intro eventID member
        rcases List.mem_append.mp member with new | old
        · exact hasMarket_of_replied new
        · exact hasMarket_step sound.wellFormed input
            (sound.replied eventID old)
      · intro eventID answered
        obtain ⟨listed, has⟩ := sound.created eventID answered
        exact ⟨listed, hasMarket_step sound.wellFormed input has⟩
  | receive eventID success deleted =>
      simp only [Catalogue.step]
      split
      · rename_i answered
        refine sound.finish answered.1 fun isSuccess => ?_
        subst isSuccess
        exact sound.replied eventID answered.2
      · exact sound
  | giveUp eventID deleted =>
      simp only [Catalogue.step]
      split
      · rename_i waits
        exact sound.finish waits nofun
      · exact sound

private theorem Listed.finish (listed : catalogue.Listed) {eventID : String}
    {created deleted : Bool}
    (has : created = true → catalogue.HasMarket eventID)
    (deletes : created = true ∨ deleted = true) :
    (catalogue.finish eventID created deleted).Listed := by
  intro other member
  change Finmap.lookup other (catalogue.calls.insert eventID _) = _ ∨ _
  rw [FiniteMap.lookup_insert_eq]
  unfold Catalogue.finish at member
  dsimp only at member
  by_cases same : other = eventID
  · subst same
    rcases deletes with rfl | rfl
    · exact .inr (has rfl)
    · cases created with
      | true => exact .inr (has rfl)
      | false =>
          rw [if_neg (by simp)] at member
          exact absurd member (Finset.notMem_erase other catalogue.rows)
  · rw [if_neg same]
    apply listed other
    split at member
    · exact member
    · exact Finset.mem_of_mem_erase member

theorem Listed.step (listed : catalogue.Listed) (sound : catalogue.Sound)
    {action : CatalogueAction} (reliable : action.Reliable) :
    (catalogue.step action).Listed := by
  cases action with
  | insert eventID confirmed =>
      cases (reliable : confirmed = true)
      simp only [Catalogue.step]
      split
      · intro other member
        dsimp only
        rw [FiniteMap.lookup_insert_eq, if_true]
        split
        · exact .inl rfl
        · rename_i different
          exact listed other (Finset.mem_of_mem_insert_of_ne member different)
      · exact listed
  | execute input =>
      intro eventID member
      exact (listed eventID member).imp id
        (hasMarket_step sound.wellFormed input)
  | receive eventID success deleted =>
      simp only [Catalogue.step]
      split
      · rename_i answered
        refine listed.finish (fun isSuccess => ?_) reliable
        subst isSuccess
        exact sound.replied eventID answered.2
      · exact listed
  | giveUp eventID deleted =>
      simp only [Catalogue.step]
      split
      · exact listed.finish nofun (.inr reliable)
      · exact listed

/-- An event whose creation was answered with success has its row and its
market for good. Where every INSERT is answered and no DELETE fails, an event
that has a row has a market once its call has ended. -/
theorem run_inBothStores (balances positions : Accounts String)
    (actions : List CatalogueAction) :
    (∀ eventID,
      ((start balances positions).run actions).calls.lookup eventID =
          some (.answered true) →
        eventID ∈ ((start balances positions).run actions).rows ∧
          ((start balances positions).run actions).HasMarket eventID) ∧
      ((∀ action ∈ actions, action.Reliable) →
        ((start balances positions).run actions).Listed) := by
  have first := sound_start balances positions
  refine ⟨(always_runFrom Sound (fun _ action sound => sound.step action) first
    actions).created, fun reliable => ?_⟩
  have along := along_of_forall step (start balances positions) reliable
  have both := invariant_runFrom
    (fun catalogue : Catalogue => catalogue.Sound ∧ catalogue.Listed)
    (fun _ action holds reliable =>
      ⟨holds.1.step action, holds.2.step holds.1 reliable⟩)
    ⟨first, nofun⟩ along
  exact both.2

/-- The DELETE fails after the deadline: the row stays without a market. -/
example : ¬ ((start ∅ ∅).run [.insert "e" true, .giveUp "e" false]).Listed := by
  intro listed
  have either := listed "e" (by decide)
  revert either
  simp only [HasMarket]
  decide

end Catalogue

end Predix
