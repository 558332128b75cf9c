import Mathlib.Data.List.Nodup
import Mathlib.Logic.Function.Iterate
import Predix.Data.Run

namespace Predix.Data.Rpc

/-! Requests that are appended to a log and answered over channels. A server
takes entries of the log in any order, and any of them more than once; its
answers carry the id of the request. -/

variable {S Chan Id C E R : Type}

/-- An entry of the log: its command, where the answer goes, if anywhere, and
the id it is sent with. -/
structure Message (Chan Id C : Type) where
  channel : Option Chan
  id : Id
  command : C
  deriving DecidableEq, Repr

/-- How an append ends for its caller. What is unconfirmed is in the log, but
the caller gets an error. -/
inductive Append where
  | confirmed
  | unconfirmed
  | failed
  deriving DecidableEq, Repr

inductive Status (R : Type) where
  | sending (attempts : Nat)
  | waiting
  | returned (response : Option R)
  deriving DecidableEq

structure Request (Chan Id C R : Type) where
  channel : Chan
  id : Id
  command : C
  inbox : List (Id × R)
  status : Status R
  deriving DecidableEq

structure Serving (Chan Id C E R : Type) where
  entry : Nat
  message : Message Chan Id C
  environment : E
  response : R
  published : Bool
  deriving DecidableEq

structure System (S Chan Id C E R : Type) where
  server : S
  log : List (Message Chan Id C)
  requests : List (Request Chan Id C R)
  servings : List (Serving Chan Id C E R)

inductive Move where
  | append (append : Append)
  | receive
  | giveUp
  deriving DecidableEq, Repr

inductive Action (Chan Id C E : Type) where
  /-- A command that nobody waits for. -/
  | post (id : Id) (command : C)
  | request (channel : Chan) (id : Id) (command : C) (attempts : Nat)
  | move (request : Nat) (move : Move)
  | serve (entry : Nat) (environment : E) (published : Bool)
  deriving DecidableEq, Repr

def Action.sentID? : Action Chan Id C E → Option Id
  | .post id _ => some id
  | .request _ id _ _ => some id
  | _ => none

namespace Request

def message (request : Request Chan Id C R) : Message Chan Id C :=
  ⟨some request.channel, request.id, request.command⟩

def isOpen (request : Request Chan Id C R) : Bool :=
  match request.status with
  | .returned _ => false
  | _ => true

def written (request : Request Chan Id C R) :
    Move → List (Message Chan Id C)
  | .append append =>
      match request.status, append with
      | .sending _, .confirmed => [request.message]
      | .sending _, .unconfirmed => [request.message]
      | _, _ => []
  | _ => []

/-- An append is tried again after an error, while attempts are left. An answer
to another request is thrown away. -/
def move [DecidableEq Id] (request : Request Chan Id C R) :
    Move → Request Chan Id C R
  | .append append =>
      match request.status, append with
      | .sending _, .confirmed => { request with status := .waiting }
      | .sending attempts, _ =>
          { request with
            status :=
              if attempts ≤ 1 then .returned none
              else .sending (attempts - 1) }
      | _, _ => request
  | .receive =>
      match request.status, request.inbox with
      | .waiting, (id, response) :: inbox =>
          { request with
            inbox := inbox
            status :=
              if id = request.id then .returned (some response)
              else .waiting }
      | _, _ => request
  | .giveUp =>
      match request.status with
      | .waiting => { request with status := .returned none }
      | _ => request

def hear [DecidableEq Chan] (request : Request Chan Id C R)
    (serving : Serving Chan Id C E R) : Request Chan Id C R :=
  if serving.published = true ∧ request.isOpen = true ∧
      serving.message.channel = some request.channel then
    { request with
      inbox := request.inbox ++ [(serving.message.id, serving.response)] }
  else
    request

end Request

namespace System

def start (server : S) : System S Chan Id C E R := ⟨server, [], [], []⟩

def serve [DecidableEq Chan] (handler : S → C → E → S × R)
    (system : System S Chan Id C E R) (entry : Nat)
    (message : Message Chan Id C) (environment : E) (published : Bool) :
    System S Chan Id C E R :=
  let handled := handler system.server message.command environment
  let serving : Serving Chan Id C E R :=
    ⟨entry, message, environment, handled.2, published⟩
  { system with
    server := handled.1
    requests := system.requests.map (·.hear serving)
    servings := system.servings ++ [serving] }

def step [DecidableEq Chan] [DecidableEq Id] (handler : S → C → E → S × R)
    (system : System S Chan Id C E R) :
    Action Chan Id C E → System S Chan Id C E R
  | .post id command =>
      { system with log := system.log ++ [⟨none, id, command⟩] }
  | .request channel id command attempts =>
      { system with
        requests := system.requests ++
          [⟨channel, id, command, [], .sending attempts⟩] }
  | .move index move =>
      { system with
        log := system.log ++
          system.requests[index]?.elim [] (·.written move)
        requests := system.requests.modify index (·.move move) }
  | .serve entry environment published =>
      match system.log[entry]? with
      | none => system
      | some message =>
          system.serve handler entry message environment published

def run [DecidableEq Chan] [DecidableEq Id] (handler : S → C → E → S × R)
    (system : System S Chan Id C E R) (actions : List (Action Chan Id C E)) :
    System S Chan Id C E R :=
  runFrom (step handler) system actions

def Unused (system : System S Chan Id C E R) (id : Id) : Prop :=
  (∀ request ∈ system.requests, request.id ≠ id) ∧
    ∀ message ∈ system.log, message.id ≠ id

instance [DecidableEq Id] (system : System S Chan Id C E R) (id : Id) :
    Decidable (system.Unused id) :=
  inferInstanceAs (Decidable ((∀ request ∈ system.requests,
    request.id ≠ id) ∧ ∀ message ∈ system.log, message.id ≠ id))

/-- Whatever is sent gets an id of its own. -/
def Fresh (system : System S Chan Id C E R) : Action Chan Id C E → Prop
  | .post id _ => system.Unused id
  | .request _ id _ _ => system.Unused id
  | _ => True

instance [DecidableEq Id] (system : System S Chan Id C E R)
    (action : Action Chan Id C E) : Decidable (system.Fresh action) :=
  match action with
  | .post id _ => inferInstanceAs (Decidable (system.Unused id))
  | .request _ id _ _ => inferInstanceAs (Decidable (system.Unused id))
  | .move _ _ => .isTrue trivial
  | .serve _ _ _ => .isTrue trivial

/-- Every entry is written once and served once. -/
def Once (system : System S Chan Id C E R) : Action Chan Id C E → Prop
  | .move _ move => move ≠ .append .unconfirmed
  | .serve entry _ _ => ∀ serving ∈ system.servings, serving.entry ≠ entry
  | _ => True

instance (system : System S Chan Id C E R) (action : Action Chan Id C E) :
    Decidable (system.Once action) :=
  match action with
  | .post _ _ => .isTrue trivial
  | .request _ _ _ _ => .isTrue trivial
  | .move _ move => inferInstanceAs (Decidable (move ≠ .append .unconfirmed))
  | .serve entry _ _ =>
      inferInstanceAs (Decidable (∀ serving ∈ system.servings,
        serving.entry ≠ entry))

end System

/-! Lists of which one element changes. -/

section Modify

variable {α β : Type} {f : α → α}

theorem forall_mem_modify {property : α → Prop} {list : List α}
    (all : ∀ a ∈ list, property a)
    (kept : ∀ a ∈ list, property a → property (f a)) (index : Nat) :
    ∀ a ∈ list.modify index f, property a := by
  induction list generalizing index with
  | nil => simp
  | cons head tail induction =>
      rw [List.forall_mem_cons] at all kept
      cases index with
      | zero =>
          rw [List.modify_zero_cons, List.forall_mem_cons]
          exact ⟨kept.1 all.1, all.2⟩
      | succ index =>
          rw [List.modify_succ_cons, List.forall_mem_cons]
          exact ⟨all.1, induction all.2 kept.2 index⟩

private theorem map_modify_of_kept {g : α → β} (kept : ∀ a, g (f a) = g a)
    (list : List α) (index : Nat) :
    (list.modify index f).map g = list.map g := by
  induction list generalizing index with
  | nil => simp
  | cons head tail induction =>
      cases index with
      | zero => simp [kept]
      | succ index => simp [induction]

theorem getElem?_append_of_some {list : List α} {index : Nat} {a : α}
    (found : list[index]? = some a) (more : List α) :
    (list ++ more)[index]? = some a := by
  rw [List.getElem?_append_left (List.getElem?_eq_some_iff.mp found).1]
  exact found

end Modify

/-! The caller of a request, and what the servings owe to it. -/

namespace Request

@[simp] theorem message_move [DecidableEq Id] (request : Request Chan Id C R)
    (move : Move) : (request.move move).message = request.message := by
  fun_cases Request.move request move <;> rfl

@[simp] theorem id_move [DecidableEq Id] (request : Request Chan Id C R)
    (move : Move) : (request.move move).id = request.id :=
  congrArg Message.id (request.message_move move)

section Hearing

variable [DecidableEq Chan] (request : Request Chan Id C R)
  (serving : Serving Chan Id C E R)

@[simp] theorem message_hear :
    (request.hear serving).message = request.message := by
  fun_cases Request.hear request serving <;> rfl

@[simp] theorem id_hear : (request.hear serving).id = request.id :=
  congrArg Message.id (request.message_hear serving)

@[simp] theorem status_hear :
    (request.hear serving).status = request.status := by
  fun_cases Request.hear request serving <;> rfl

@[simp] theorem isOpen_hear :
    (request.hear serving).isOpen = request.isOpen := by
  unfold isOpen
  rw [status_hear]

end Hearing

theorem receive_own [DecidableEq Id] (channel : Chan) (id : Id) (command : C)
    (response : R) (inbox : List (Id × R)) :
    (⟨channel, id, command, (id, response) :: inbox, .waiting⟩ :
      Request Chan Id C R).move .receive =
      ⟨channel, id, command, inbox, .returned (some response)⟩ := by
  simp [Request.move]

theorem receive_other [DecidableEq Id] (channel : Chan) {id sender : Id}
    (other : sender ≠ id) (command : C) (response : R)
    (inbox : List (Id × R)) :
    (⟨channel, id, command, (sender, response) :: inbox, .waiting⟩ :
      Request Chan Id C R).move .receive =
      ⟨channel, id, command, inbox, .waiting⟩ := by
  simp [Request.move, other]

private theorem eq_of_mem_written {request : Request Chan Id C R} {move : Move}
    {message : Message Chan Id C} (written : message ∈ request.written move) :
    message = request.message := by
  unfold Request.written at written
  split at written
  · split at written
    · exact List.mem_singleton.mp written
    · exact List.mem_singleton.mp written
    · cases written
  · cases written

private theorem sending_of_move [DecidableEq Id] {request : Request Chan Id C R}
    
    {move : Move} {attempts : Nat}
    (sending : (request.move move).status = .sending attempts) :
    ∃ before, request.status = .sending before := by
  obtain ⟨channel, id, command, inbox, status⟩ := request
  cases status with
  | sending attempts => exact ⟨attempts, rfl⟩
  | returned response => cases move <;> cases sending
  | waiting =>
      cases move with
      | append | giveUp => cases sending
      | receive =>
          cases inbox with
          | nil => cases sending
          | cons first inbox =>
              change (if first.1 = id then _ else _) = _ at sending
              split at sending <;> cases sending

private theorem written_cases [DecidableEq Id] (request : Request Chan Id C R)
    {move : Move} (confirmed : move ≠ .append .unconfirmed) :
    request.written move = [] ∨
      request.written move = [request.message] ∧
        (∃ attempts, request.status = .sending attempts) ∧
        (request.move move).status = .waiting := by
  obtain ⟨channel, id, command, inbox, status⟩ := request
  cases move with
  | receive | giveUp => exact .inl rfl
  | append append =>
      cases append with
      | unconfirmed => exact absurd rfl confirmed
      | failed => cases status <;> exact .inl rfl
      | confirmed =>
          cases status with
          | sending attempts => exact .inr ⟨rfl, ⟨attempts, rfl⟩, rfl⟩
          | waiting | returned => exact .inl rfl

def Answered (request : Request Chan Id C R)
    (servings : List (Serving Chan Id C E R)) (response : R) : Prop :=
  ∃ serving ∈ servings, serving.message = request.message ∧
    serving.response = response

/-- Only answers to the request are taken for one, and none of them is lost. -/
structure Faithful (request : Request Chan Id C R)
    (servings : List (Serving Chan Id C E R)) : Prop where
  inbox : ∀ {response}, (request.id, response) ∈ request.inbox →
    request.Answered servings response
  returned : ∀ {response}, request.status = .returned (some response) →
    request.Answered servings response
  held : request.isOpen = true → ∀ {serving}, serving ∈ servings →
    serving.published = true → serving.message = request.message →
      (request.id, serving.response) ∈ request.inbox

variable {request : Request Chan Id C R}
  {servings : List (Serving Chan Id C E R)}

private theorem Answered.more {response : R}
    (answered : request.Answered servings response)
    (serving : Serving Chan Id C E R) :
    request.Answered (servings ++ [serving]) response := by
  obtain ⟨old, member, of⟩ := answered
  exact ⟨old, List.mem_append_left _ member, of⟩

theorem Answered.congr {other : Request Chan Id C R} {response : R}
    (answered : request.Answered servings response)
    (same : other.message = request.message) :
    other.Answered servings response := by
  unfold Answered
  rw [same]
  exact answered

theorem Faithful.move [DecidableEq Id] (faithful : request.Faithful servings)
    (move : Move) : (request.move move).Faithful servings := by
  obtain ⟨channel, id, command, inbox, status⟩ := request
  cases move with
  | append append =>
      cases status with
      | waiting => exact faithful
      | returned => exact faithful
      | sending attempts =>
          cases append with
          | confirmed =>
              exact ⟨faithful.inbox, nofun, fun _ => faithful.held rfl⟩
          | unconfirmed | failed =>
              refine ⟨faithful.inbox, ?_, fun _ => faithful.held rfl⟩
              intro response returned
              change (if attempts ≤ 1 then _ else _) = _ at returned
              split at returned <;> cases returned
  | giveUp =>
      cases status with
      | sending | returned => exact faithful
      | waiting => exact ⟨faithful.inbox, nofun, nofun⟩
  | receive =>
      cases status with
      | sending | returned => exact faithful
      | waiting =>
          cases inbox with
          | nil => exact faithful
          | cons first inbox =>
              obtain ⟨sender, response⟩ := first
              by_cases own : sender = id
              · subst own
                rw [receive_own]
                refine ⟨fun member => ?_, fun returned => ?_, nofun⟩
                · exact faithful.inbox (List.mem_cons_of_mem _ member)
                · cases returned
                  exact faithful.inbox List.mem_cons_self
              · rw [receive_other channel own]
                refine ⟨fun member => ?_, nofun, fun _ serving member published
                  isOwn => ?_⟩
                · exact faithful.inbox (List.mem_cons_of_mem _ member)
                · -- what is thrown away answers another request
                  have held := faithful.held rfl member published isOwn
                  rcases List.mem_cons.mp held with first | rest
                  · exact absurd (congrArg Prod.fst first).symm own
                  · exact rest

private theorem Faithful.hear [DecidableEq Chan]
    (faithful : request.Faithful servings) {serving : Serving Chan Id C E R}
    (own : serving.message.id = request.id →
      serving.message = request.message) :
    (request.hear serving).Faithful (servings ++ [serving]) := by
  refine ⟨fun {response} member => ?_, fun {response} returned => ?_,
    fun isOpen other member published isOwn => ?_⟩
  · apply Answered.congr _ (message_hear request serving)
    rw [id_hear] at member
    unfold Request.hear at member
    split at member
    · rcases List.mem_append.mp member with old | new
      · exact (faithful.inbox old).more serving
      · rw [List.mem_singleton, Prod.mk.injEq] at new
        exact ⟨serving, by simp, own new.1.symm, new.2.symm⟩
    · exact (faithful.inbox member).more serving
  · rw [status_hear] at returned
    exact ((faithful.returned returned).more serving).congr
      (message_hear request serving)
  · rw [isOpen_hear] at isOpen
    rw [message_hear] at isOwn
    rw [id_hear]
    unfold Request.hear
    rcases List.mem_append.mp member with old | new
    · have held := faithful.held isOpen old published isOwn
      split
      · exact List.mem_append_left _ held
      · exact held
    · rw [List.mem_singleton] at new
      subst new
      rw [if_pos ⟨published, isOpen, congrArg Message.channel isOwn⟩]
      apply List.mem_append_right
      rw [isOwn]
      exact List.mem_singleton_self _

private theorem receives_return [DecidableEq Id] {response : R}
    (waiting : request.status = .waiting)
    (held : (request.id, response) ∈ request.inbox) :
    ∃ count ≤ request.inbox.length, ∃ first,
      ((fun request => Request.move request .receive)^[count] request).status =
        .returned (some first) := by
  obtain ⟨channel, id, command, inbox, status⟩ := request
  cases waiting
  induction inbox with
  | nil => cases held
  | cons head inbox induction =>
      obtain ⟨sender, first⟩ := head
      by_cases own : sender = id
      · subst own
        refine ⟨1, by simp, first, ?_⟩
        rw [Function.iterate_one, receive_own]
      · have later : (id, response) ∈ inbox := by
          rcases List.mem_cons.mp held with same | later
          · exact absurd (congrArg Prod.fst same).symm own
          · exact later
        obtain ⟨count, bound, first, returned⟩ := induction later
        refine ⟨count + 1, Nat.succ_le_succ bound, first, ?_⟩
        rw [Function.iterate_succ_apply, receive_other channel own]
        exact returned

end Request

/-! Whole systems. -/

namespace System

/-- An id in the log stands for one request, and every request is dealt with
faithfully. -/
structure Sound (system : System S Chan Id C E R) : Prop where
  distinct : (system.requests.map (·.id)).Nodup
  logged : ∀ request ∈ system.requests, ∀ message ∈ system.log,
    message.id = request.id → message = request.message
  served : ∀ serving ∈ system.servings,
    system.log[serving.entry]? = some serving.message
  faithful : ∀ request ∈ system.requests, request.Faithful system.servings

section Facts

variable {system : System S Chan Id C E R}

theorem sound_start (server : S) :
    (start server : System S Chan Id C E R).Sound :=
  ⟨List.nodup_nil, nofun, nofun, nofun⟩

theorem Sound.served_mem (sound : system.Sound)
    {serving : Serving Chan Id C E R} (member : serving ∈ system.servings) :
    serving.message ∈ system.log :=
  List.mem_of_getElem? (sound.served serving member)

theorem Sound.eq_of_id (sound : system.Sound)
    {request other : Request Chan Id C R} (member : request ∈ system.requests)
    (otherMember : other ∈ system.requests) (same : request.id = other.id) :
    request = other :=
  List.inj_on_of_nodup_map sound.distinct member otherMember same

private theorem mem_written {index : Nat} {move : Move}
    {message : Message Chan Id C}
    (written : message ∈ system.requests[index]?.elim [] (·.written move)) :
    ∃ request ∈ system.requests, message ∈ request.written move := by
  cases found : system.requests[index]? with
  | none =>
      rw [found] at written
      cases written
  | some request =>
      rw [found] at written
      exact ⟨request, List.mem_of_getElem? found, written⟩

end Facts

variable [DecidableEq Chan] [DecidableEq Id] {handler : S → C → E → S × R}
  {system : System S Chan Id C E R}

private theorem sound_post (sound : system.Sound) {id : Id}
    (unused : system.Unused id) (command : C) :
    (system.step handler (.post id command)).Sound where
  distinct := sound.distinct
  logged := by
    intro request member message logged same
    rcases List.mem_append.mp logged with old | new
    · exact sound.logged request member message old same
    · rw [List.mem_singleton.mp new] at same
      exact absurd same.symm (unused.1 request member)
  served := fun serving member =>
    getElem?_append_of_some (sound.served serving member) _
  faithful := sound.faithful

private theorem sound_request (sound : system.Sound) {id : Id}
    (unused : system.Unused id) (channel : Chan) (command : C)
    (attempts : Nat) :
    (system.step handler (.request channel id command attempts)).Sound where
  distinct := by
    change ((system.requests ++ [_]).map _).Nodup
    rw [List.map_append, List.nodup_append]
    refine ⟨sound.distinct, List.nodup_singleton _, ?_⟩
    intro old isOld new isNew
    obtain ⟨request, member, rfl⟩ := List.mem_map.mp isOld
    rw [List.mem_singleton.mp isNew]
    exact unused.1 request member
  logged := by
    intro request member message logged same
    rcases List.mem_append.mp member with old | new
    · exact sound.logged request old message logged same
    · rw [List.mem_singleton.mp new] at same
      exact absurd same (unused.2 message logged)
  served := sound.served
  faithful := by
    intro request member
    rcases List.mem_append.mp member with old | new
    · exact sound.faithful request old
    · rw [List.mem_singleton.mp new]
      refine ⟨nofun, nofun, fun _ serving isServing _ own => ?_⟩
      apply absurd (congrArg Message.id own)
      exact unused.2 _ (sound.served_mem isServing)

theorem sound_move (sound : system.Sound) (index : Nat) (move : Move) :
    (system.step handler (.move index move)).Sound where
  distinct := by
    change ((system.requests.modify _ _).map _).Nodup
    rw [map_modify_of_kept (fun request => Request.id_move request move)]
    exact sound.distinct
  logged := by
    apply forall_mem_modify
    · intro request member message logged same
      rcases List.mem_append.mp logged with old | new
      · exact sound.logged request member message old same
      · obtain ⟨writer, isWriter, written⟩ := mem_written new
        rw [Request.eq_of_mem_written written] at same ⊢
        rw [sound.eq_of_id isWriter member same]
    · intro request _ own message logged same
      rw [Request.message_move]
      rw [Request.id_move] at same
      exact own message logged same
  served := fun serving member =>
    getElem?_append_of_some (sound.served serving member) _
  faithful := forall_mem_modify sound.faithful
    (fun _ _ faithful => faithful.move move) index

omit [DecidableEq Id] in
private theorem sound_serve (sound : system.Sound) {entry : Nat}
    {message : Message Chan Id C} (found : system.log[entry]? = some message)
    (environment : E) (published : Bool) :
    (system.serve handler entry message environment published).Sound where
  distinct := by
    have ids : ∀ serving : Serving Chan Id C E R,
        (system.requests.map (·.hear serving)).map (·.id) =
          system.requests.map (·.id) := by
      intro serving
      rw [List.map_map]
      exact List.map_congr_left fun request _ => request.id_hear serving
    exact (ids _).symm ▸ sound.distinct
  logged := by
    intro request member other logged same
    obtain ⟨old, isOld, rfl⟩ := List.mem_map.mp member
    rw [Request.message_hear]
    rw [Request.id_hear] at same
    exact sound.logged old isOld other logged same
  served := by
    intro serving member
    rcases List.mem_append.mp member with old | new
    · exact sound.served serving old
    · rw [List.mem_singleton.mp new]
      exact found
  faithful := by
    intro request member
    obtain ⟨old, isOld, rfl⟩ := List.mem_map.mp member
    apply (sound.faithful old isOld).hear
    exact sound.logged old isOld message (List.mem_of_getElem? found)

theorem sound_step (sound : system.Sound) {action : Action Chan Id C E}
    (fresh : system.Fresh action) : (system.step handler action).Sound := by
  cases action with
  | post id command => exact sound_post sound fresh command
  | request channel id command attempts =>
      exact sound_request sound fresh channel command attempts
  | move index move => exact sound_move sound index move
  | serve entry environment published =>
      simp only [System.step]
      split
      · exact sound
      · rename_i message found
        exact sound_serve sound found environment published

theorem sound_run {server : S} {actions : List (Action Chan Id C E)}
    (fresh : Along (step handler) Fresh (start server) actions) :
    (run handler (start server) actions).Sound :=
  invariant_runFrom Sound (fun _ _ sound => sound_step sound)
    (sound_start server) fresh

/-! The servings as one run of the server. -/

def replay (handler : S → C → E → S × R) (server : S)
    (servings : List (Serving Chan Id C E R)) : S :=
  runFrom (fun server serving =>
    (handler server serving.message.command serving.environment).1)
    server servings

/-- The server is where its servings lead, and every response is the one it
gave on the way. -/
structure Chained (handler : S → C → E → S × R) (server : S)
    (system : System S Chan Id C E R) : Prop where
  state : system.server = replay handler server system.servings
  responses : ∀ before serving after,
    system.servings = before ++ serving :: after →
      serving.response = (handler (replay handler server before)
        serving.message.command serving.environment).2

theorem chained_step {server : S} (chained : system.Chained handler server)
    (action : Action Chan Id C E) :
    (system.step handler action).Chained handler server := by
  cases action with
  | post | request | move => exact ⟨chained.state, chained.responses⟩
  | serve entry environment published =>
      simp only [System.step]
      split
      · exact chained
      · constructor
        · simp only [System.serve, replay, runFrom_append]
          rw [chained.state]
          rfl
        · apply splits_append chained.responses
          rw [← chained.state]

theorem chained_run (server : S) (actions : List (Action Chan Id C E)) :
    (run handler (start server) actions).Chained handler server :=
  always_runFrom (Chained handler server)
    (fun _ action chained => chained_step chained action)
    ⟨rfl, splits_nil⟩ actions

theorem servings_run (system : System S Chan Id C E R)
    (actions : List (Action Chan Id C E)) :
    system.servings <+: (run handler system actions).servings := by
  refine always_runFrom (fun later : System S Chan Id C E R =>
    system.servings <+: later.servings) ?_ (List.prefix_refl _) actions
  intro later action grown
  cases action with
  | post | request | move => exact grown
  | serve entry environment published =>
      simp only [System.step]
      split
      · exact grown
      · exact grown.trans (List.prefix_append _ _)

/-! What is sent later is served later. -/

theorem log_step (system : System S Chan Id C E R)
    (action : Action Chan Id C E) :
    ∀ message ∈ system.log, message ∈ (system.step handler action).log := by
  intro message logged
  cases action with
  | post | move => exact List.mem_append_left _ logged
  | request => exact logged
  | serve entry environment published =>
      simp only [System.step]
      split
      · exact logged
      · exact logged

theorem unlogged_of_sent {actions : List (Action Chan Id C E)}
    (fresh : Along (step handler) Fresh system actions)
    {action : Action Chan Id C E} (member : action ∈ actions) {id : Id}
    (sent : action.sentID? = some id) :
    ∀ message ∈ system.log, message.id ≠ id := by
  induction actions generalizing system with
  | nil => cases member
  | cons head actions induction =>
      rcases List.mem_cons.mp member with rfl | later
      · cases action with
        | post | request =>
            cases sent
            exact fresh.1.2
        | move | serve => cases sent
      · intro message logged
        exact induction fresh.2 later message
          (log_step system head message logged)

/-! Nothing is written or served twice. -/

structure Single (system : System S Chan Id C E R) : Prop where
  unsent : ∀ request ∈ system.requests, ∀ {attempts},
    request.status = .sending attempts →
      ∀ message ∈ system.log, message.id ≠ request.id
  log : (system.log.map (·.id)).Nodup
  servings : (system.servings.map (·.message.id)).Nodup

theorem nodup_concat {α β : Type} {f : α → β} {list : List α}
    (nodup : (list.map f).Nodup) {last : α}
    (new : ∀ a ∈ list, f a ≠ f last) : ((list ++ [last]).map f).Nodup := by
  rw [List.map_append, List.nodup_append]
  refine ⟨nodup, List.nodup_singleton _, ?_⟩
  intro old isOld other isNew
  obtain ⟨a, member, rfl⟩ := List.mem_map.mp isOld
  rw [List.mem_singleton.mp isNew]
  exact new a member

private theorem single_move (sound : system.Sound) (single : system.Single)
    (index : Nat) {move : Move} (confirmed : move ≠ .append .unconfirmed) :
    (system.step handler (.move index move)).Single := by
  have old : ∀ request ∈ system.requests.modify index (·.move move),
      ∀ {attempts}, request.status = .sending attempts →
        ∀ message ∈ system.log, message.id ≠ request.id := by
    apply forall_mem_modify single.unsent
    intro request _ unsent attempts sending
    obtain ⟨before, sendingBefore⟩ := Request.sending_of_move sending
    rw [Request.id_move]
    exact unsent sendingBefore
  cases found : system.requests[index]? with
  | none =>
      simp only [System.step, found, Option.elim_none, List.append_nil]
      exact ⟨old, single.log, single.servings⟩
  | some request =>
      have member := List.mem_of_getElem? found
      rcases request.written_cases confirmed with
        nothing | ⟨own, ⟨attempts, sending⟩, waits⟩
      · simp only [System.step, found, Option.elim_some, nothing,
          List.append_nil]
        exact ⟨old, single.log, single.servings⟩
      · have moved := @sound_move _ _ _ _ _ _ _ _ handler _ sound index move
        simp only [System.step, found, Option.elim_some, own] at moved ⊢
        refine ⟨?_, nodup_concat single.log
          (single.unsent request member sending), single.servings⟩
        intro later isLater attempts sending message logged
        rcases List.mem_append.mp logged with isOld | new
        · exact old later isLater sending message isOld
        · -- it would be the request that has just been written
          rw [List.mem_singleton.mp new]
          intro same
          have isMoved : request.move move ∈
              system.requests.modify index (·.move move) := by
            apply List.mem_of_getElem? (i := index)
            rw [List.getElem?_modify_eq, found]
            rfl
          rw [← moved.eq_of_id isMoved isLater
            ((request.id_move move).trans same), waits] at sending
          cases sending

theorem single_step (sound : system.Sound) (single : system.Single)
    {action : Action Chan Id C E} (fresh : system.Fresh action)
    (once : system.Once action) : (system.step handler action).Single := by
  cases action with
  | post id command =>
      refine ⟨?_, nodup_concat single.log fresh.2, single.servings⟩
      intro request member attempts sending message logged
      rcases List.mem_append.mp logged with old | new
      · exact single.unsent request member sending message old
      · rw [List.mem_singleton.mp new]
        exact (fresh.1 request member).symm
  | request channel id command attempts =>
      refine ⟨?_, single.log, single.servings⟩
      intro request member attempts sending message logged
      rcases List.mem_append.mp member with old | new
      · exact single.unsent request old sending message logged
      · rw [List.mem_singleton.mp new]
        exact fresh.2 message logged
  | move index move => exact single_move sound single index once
  | serve entry environment published =>
      simp only [System.step]
      split
      · exact single
      · rename_i message found
        refine ⟨?_, single.log, ?_⟩
        · intro request member attempts sending other logged
          obtain ⟨old, isOld, rfl⟩ := List.mem_map.mp member
          rw [Request.id_hear]
          rw [Request.status_hear] at sending
          exact single.unsent old isOld sending other logged
        · apply nodup_concat single.servings
          -- two servings of one id would be of one entry
          intro serving member same
          apply once serving member
          have bound : serving.entry < (system.log.map (·.id)).length := by
            rw [List.length_map]
            exact (List.getElem?_eq_some_iff.mp (sound.served serving member)).1
          apply (List.getElem?_inj bound single.log).mp
          rw [List.getElem?_map, List.getElem?_map, found,
            sound.served serving member]
          exact congrArg some same

theorem single_run {server : S} {actions : List (Action Chan Id C E)}
    (fresh : Along (step handler) Fresh (start server) actions)
    (once : Along (step handler) Once (start server) actions) :
    (run handler (start server) actions).Single := by
  have both := invariant_runFrom
    (fun system : System S Chan Id C E R => system.Sound ∧ system.Single)
    (fun _ _ holds meets => ⟨sound_step holds.1 meets.1,
      single_step holds.1 holds.2 meets.1 meets.2⟩)
    ⟨sound_start server, nofun, List.nodup_nil, List.nodup_nil⟩
    (along_and fresh once)
  exact both.2

/-! A request that waits for an answer that is there. -/

private theorem requests_receives (system : System S Chan Id C E R)
    (index count : Nat) :
    (run handler system
      (List.replicate count (.move index .receive))).requests[index]? =
      system.requests[index]?.map
        (fun request => Request.move request .receive)^[count] := by
  induction count generalizing system with
  | zero => simp [run, runFrom]
  | succ count induction =>
      rw [List.replicate_succ]
      change (run handler (system.step handler (.move index .receive))
        (List.replicate count (.move index .receive))).requests[index]? = _
      rw [induction]
      simp only [System.step, List.getElem?_modify_eq]
      cases system.requests[index]? <;> rfl

/-- A published answer to a request that waits is returned after a few
receives, or an earlier one is. -/
theorem returns_of_published (sound : system.Sound) {index : Nat}
    {request : Request Chan Id C R}
    (found : system.requests[index]? = some request)
    (waiting : request.status = .waiting) {serving : Serving Chan Id C E R}
    (member : serving ∈ system.servings)
    (published : serving.published = true)
    (own : serving.message = request.message) :
    ∃ count ≤ request.inbox.length, ∃ later response,
      (run handler system
        (List.replicate count (.move index .receive))).requests[index]? =
          some later ∧
      later.status = .returned (some response) ∧
      request.Answered system.servings response := by
  have faithful := sound.faithful request (List.mem_of_getElem? found)
  have isOpen : request.isOpen = true := by
    unfold Request.isOpen
    rw [waiting]
  obtain ⟨count, bound, response, returned⟩ := Request.receives_return waiting
    (faithful.held isOpen member published own)
  refine ⟨count, bound, _, response, ?_, returned, ?_⟩
  · rw [requests_receives, found]
    rfl
  · have moved : ∀ count, ((fun request => Request.move request .receive)^[count]
        request).Faithful system.servings ∧
        ((fun request => Request.move request .receive)^[count]
          request).message = request.message := by
      intro count
      induction count with
      | zero => exact ⟨faithful, rfl⟩
      | succ count induction =>
          rw [Function.iterate_succ_apply']
          exact ⟨induction.1.move _, by rw [Request.message_move, induction.2]⟩
    exact ((moved count).1.returned returned).congr (moved count).2.symm

end System

end Predix.Data.Rpc
