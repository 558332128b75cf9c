import Predix.Data.Account
import Predix.Data.Run

namespace Predix.Data

/-! Transfers that are made in one order and posted in another. -/

variable {A K : Type}

namespace Transfer

variable [DecidableEq K]

/-- What transfers bring into an account, less what they take out of it. -/
def net (key : K) (transfers : List (Transfer K)) : Int :=
  received key transfers - paid key transfers

@[simp] theorem net_nil (key : K) : net key [] = 0 := rfl

theorem net_cons (key : K) (transfer : Transfer K)
    (transfers : List (Transfer K)) :
    net key (transfer :: transfers) =
      (if transfer.payee = key then transfer.amount.toInt else 0) -
        (if transfer.payer = key then transfer.amount.toInt else 0) +
        net key transfers := by
  unfold net
  rw [received_cons, paid_cons]
  omega

theorem net_append (key : K) (first second : List (Transfer K)) :
    net key (first ++ second) = net key first + net key second := by
  induction first with
  | nil => simp
  | cons transfer first induction =>
      rw [List.cons_append, net_cons, net_cons, induction]
      omega

theorem net_perm {key : K} {first second : List (Transfer K)}
    (perm : first.Perm second) : net key first = net key second := by
  induction perm with
  | nil => rfl
  | cons transfer _ induction => rw [net_cons, net_cons, induction]
  | swap left right rest =>
      rw [net_cons, net_cons, net_cons, net_cons]
      omega
  | trans _ _ first second => exact first.trans second

/-- The payer of every transfer has its amount by then. -/
def Covered (start : K → Int) (transfers : List (Transfer K)) : Prop :=
  ∀ before transfer after, transfers = before ++ transfer :: after →
    transfer.amount.toInt ≤ start transfer.payer + net transfer.payer before

private theorem Covered.left {start : K → Int}
    {first second : List (Transfer K)}
    (covered : Covered start (first ++ second)) : Covered start first := by
  intro before transfer after split
  apply covered before transfer (after ++ second)
  rw [split, List.append_assoc, List.cons_append]

theorem Covered.tail {start : K → Int} {transfer : Transfer K}
    {transfers : List (Transfer K)}
    (covered : Covered start (transfer :: transfers)) :
    Covered (fun key => start key + net key [transfer]) transfers := by
  intro before later after split
  have enough := covered (transfer :: before) later after
    (by rw [split, List.cons_append])
  rw [net_cons] at enough
  dsimp only
  rw [net_cons, net_nil]
  omega

theorem Covered.append {start : K → Int} {first second : List (Transfer K)}
    (covered : Covered start first)
    (nonneg : ∀ transfer ∈ second, 0 ≤ transfer.amount.toInt)
    (enough : ∀ key, paid key second ≤ start key + net key first) :
    Covered start (first ++ second) := by
  induction second generalizing first with
  | nil =>
      rw [List.append_nil]
      exact covered
  | cons transfer second induction =>
      have amount := nonneg transfer (by simp)
      have rest : ∀ later ∈ second, 0 ≤ later.amount.toInt :=
        fun later member => nonneg later (List.mem_cons_of_mem _ member)
      rw [List.append_cons]
      apply induction
      · apply splits_append covered
        have all := enough transfer.payer
        have more := paid_nonneg rest transfer.payer
        rw [paid_cons, if_pos rfl] at all
        omega
      · exact rest
      · intro key
        have all := enough key
        rw [paid_cons] at all
        rw [net_append, net_cons, net_nil]
        split <;> omega

end Transfer

section Posting

variable (transfer : A → Transfer K) (posted : A → Bool)

/-- The transfers of a journal that are posted. -/
def postings (journal : List A) : List (Transfer K) :=
  (journal.filter posted).map transfer

/-- What the payer of a posted transfer had received before is posted, too. -/
def Grounded (journal : List A) : Prop :=
  journal.Pairwise fun earlier later => posted later = true →
    (transfer earlier).payee = (transfer later).payer → posted earlier = true

variable {transfer posted}

theorem postings_append (first second : List A) :
    postings transfer posted (first ++ second) =
      postings transfer posted first ++ postings transfer posted second := by
  unfold postings
  rw [List.filter_append, List.map_append]

variable [DecidableEq K]

private theorem net_le_postings {journal : List A} {key : K}
    (nonneg : ∀ entry ∈ journal, 0 ≤ (transfer entry).amount.toInt)
    (receipts : ∀ entry ∈ journal, (transfer entry).payee = key →
      posted entry = true) :
    Transfer.net key (journal.map transfer) ≤
      Transfer.net key (postings transfer posted journal) := by
  induction journal with
  | nil => exact Int.le_refl 0
  | cons entry journal induction =>
      have amount := nonneg entry (by simp)
      have rest := induction
        (fun later member => nonneg later (List.mem_cons_of_mem _ member))
        (fun later member => receipts later (List.mem_cons_of_mem _ member))
      unfold postings at rest ⊢
      rw [List.map_cons, Transfer.net_cons]
      cases isPosted : posted entry with
      | true =>
          rw [List.filter_cons_of_pos isPosted, List.map_cons,
            Transfer.net_cons]
          omega
      | false =>
          have foreign : (transfer entry).payee ≠ key := by
            intro same
            have := receipts entry (by simp) same
            rw [isPosted] at this
            contradiction
          rw [List.filter_cons_of_neg (by simp [isPosted]), if_neg foreign]
          split <;> omega

/-- In whatever order covered transfers are posted, no account is overdrawn as
long as the receipts of a payer are posted before what it pays out of them. -/
theorem Grounded.solvent {start : K → Int} (funded : ∀ key, 0 ≤ start key)
    {journal : List A}
    (nonneg : ∀ entry ∈ journal, 0 ≤ (transfer entry).amount.toInt)
    (covered : Transfer.Covered start (journal.map transfer))
    (grounded : Grounded transfer posted journal) (key : K) :
    0 ≤ start key + Transfer.net key (postings transfer posted journal) := by
  induction journal using List.reverseRecOn with
  | nil =>
      have := funded key
      simpa [postings] using this
  | append_singleton journal entry induction =>
      have amount := nonneg entry (by simp)
      have earlier : ∀ entry ∈ journal, 0 ≤ (transfer entry).amount.toInt :=
        fun later member => nonneg later (List.mem_append_left _ member)
      rw [List.map_append] at covered
      obtain ⟨groundedBefore, _, receipts⟩ := List.pairwise_append.mp grounded
      have before := induction earlier covered.left groundedBefore
      rw [postings_append, Transfer.net_append]
      cases isPosted : posted entry with
      | false =>
          have none : postings transfer posted [entry] = [] := by
            simp [postings, isPosted]
          rw [none, Transfer.net_nil, Int.add_zero]
          exact before
      | true =>
          have one : postings transfer posted [entry] = [transfer entry] := by
            simp [postings, isPosted]
          rw [one, Transfer.net_cons, Transfer.net_nil]
          by_cases pays : (transfer entry).payer = key
          · -- what this account had received by then is posted
            have enough := covered (journal.map transfer) (transfer entry) []
              rfl
            have more : Transfer.net key (journal.map transfer) ≤
                Transfer.net key (postings transfer posted journal) :=
              net_le_postings earlier fun other member paid =>
                receipts other member entry (by simp) isPosted
                  (paid.trans pays.symm)
            rw [pays] at enough
            rw [if_pos pays]
            split <;> omega
          · rw [if_neg pays]
            split <;> omega

end Posting

/-! Journals whose entries are posted by several queues. -/

inductive Fate where
  | waiting
  | posted
  | lost
  deriving DecidableEq, Repr

structure Record (Q A : Type) where
  queue : Q
  item : A
  progress : Fate
  deriving DecidableEq, Repr

namespace Record

variable {Q : Type}

def isPosted (entry : Record Q A) : Bool := decide (entry.progress = .posted)

variable [DecidableEq Q]

def waitsIn (queue : Q) (entry : Record Q A) : Bool :=
  decide (entry.queue = queue ∧ entry.progress = .waiting)

def queued (queue : Q) (journal : List (Record Q A)) : List A :=
  (journal.filter (waitsIn queue)).map item

def ahead (queue : Q) (journal : List (Record Q A)) : List (Record Q A) :=
  journal.takeWhile fun entry => !entry.waitsIn queue

def dequeue (queue : Q) (progress : Fate) :
    List (Record Q A) → List (Record Q A)
  | [] => []
  | entry :: journal =>
      if entry.waitsIn queue then
        { entry with progress := progress } :: journal
      else
        entry :: dequeue queue progress journal

variable {queue : Q} {journal : List (Record Q A)} {item : A} {items : List A}

theorem queued_append (first second : List (Record Q A)) :
    queued queue (first ++ second) =
      queued queue first ++ queued queue second := by
  unfold queued
  rw [List.filter_append, List.map_append]

theorem dequeue_split (isHead : queued queue journal = item :: items)
    (progress : Fate) :
    ∃ after, journal = ahead queue journal ++ ⟨queue, item, .waiting⟩ :: after ∧
      dequeue queue progress journal =
        ahead queue journal ++ ⟨queue, item, progress⟩ :: after ∧
      queued queue after = items := by
  induction journal with
  | nil => contradiction
  | cons entry journal induction =>
      unfold queued at isHead
      unfold ahead dequeue
      cases waits : entry.waitsIn queue with
      | true =>
          rw [List.filter_cons_of_pos waits, List.map_cons] at isHead
          obtain ⟨rfl, rest⟩ := List.cons.inj isHead
          obtain ⟨rfl, waiting⟩ := of_decide_eq_true waits
          rw [List.takeWhile_cons_of_neg (by simp [waits])]
          refine ⟨journal, ?_, rfl, rest⟩
          rw [← waiting]
          rfl
      | false =>
          rw [List.filter_cons_of_neg (by simp [waits])] at isHead
          obtain ⟨after, split, replaced, rest⟩ := induction isHead
          rw [List.takeWhile_cons_of_pos (by simp [waits])]
          refine ⟨after, ?_, ?_, rest⟩
          · rw [List.cons_append]
            exact congrArg (entry :: ·) split
          · rw [List.cons_append]
            exact congrArg (entry :: ·) replaced

private theorem queued_ahead : queued queue (ahead queue journal) = [] := by
  induction journal with
  | nil => rfl
  | cons entry journal induction =>
      unfold queued ahead at induction ⊢
      cases waits : entry.waitsIn queue with
      | true =>
          rw [List.takeWhile_cons_of_neg (by simp [waits])]
          rfl
      | false =>
          rw [List.takeWhile_cons_of_pos (by simp [waits]),
            List.filter_cons_of_neg (by simp [waits])]
          exact induction

theorem queued_dequeue (isHead : queued queue journal = item :: items)
    {progress : Fate} (gone : progress ≠ .waiting) :
    queued queue (dequeue queue progress journal) = items := by
  obtain ⟨after, _, replaced, rest⟩ := dequeue_split isHead progress
  rw [replaced, queued_append, queued_ahead, List.nil_append, ← rest]
  unfold queued
  rw [List.filter_cons_of_neg (by simp [waitsIn, gone])]

theorem queued_dequeue_other {other : Q} (different : other ≠ queue)
    (progress : Fate) (journal : List (Record Q A)) :
    queued other (dequeue queue progress journal) = queued other journal := by
  induction journal with
  | nil => rfl
  | cons entry journal induction =>
      unfold queued at induction ⊢
      unfold dequeue
      split
      · rename_i waits
        have own : entry.queue ≠ other := by
          rw [(of_decide_eq_true waits).1]
          exact different.symm
        rw [List.filter_cons_of_neg (by simp [waitsIn, own]),
          List.filter_cons_of_neg (by simp [waitsIn, own])]
      · rw [List.filter_cons, List.filter_cons]
        split
        · rw [List.map_cons, List.map_cons, induction]
        · exact induction

theorem items_dequeue (queue : Q) (progress : Fate)
    (journal : List (Record Q A)) :
    (dequeue queue progress journal).map Record.item =
      journal.map Record.item := by
  induction journal with
  | nil => rfl
  | cons entry journal induction =>
      unfold dequeue
      split
      · rfl
      · rw [List.map_cons, List.map_cons, induction]

def enqueue (queue : Q) (items : List A) : List (Record Q A) :=
  items.map fun item => ⟨queue, item, .waiting⟩

omit [DecidableEq Q] in
theorem items_enqueue (queue : Q) (items : List A) :
    (enqueue queue items).map Record.item = items := by
  unfold enqueue
  rw [List.map_map]
  exact List.map_id items

theorem queued_enqueue (queue : Q) (items : List A) :
    queued queue (enqueue queue items) = items := by
  induction items with
  | nil => rfl
  | cons item items induction =>
      unfold queued enqueue at induction ⊢
      rw [List.map_cons, List.filter_cons_of_pos (by simp [waitsIn]),
        List.map_cons, induction]

theorem queued_enqueue_other {other : Q} (different : other ≠ queue)
    (items : List A) : queued other (enqueue queue items) = [] := by
  induction items with
  | nil => rfl
  | cons item items induction =>
      unfold queued enqueue at induction ⊢
      rw [List.map_cons,
        List.filter_cons_of_neg (by simp [waitsIn, different.symm])]
      exact induction

variable {transfer : A → Transfer K}

theorem postings_dequeue (isHead : queued queue journal = item :: items) :
    (postings (fun entry => transfer entry.item) isPosted
        (dequeue queue .posted journal)).Perm
      (postings (fun entry => transfer entry.item) isPosted journal ++
        [transfer item]) := by
  obtain ⟨after, split, replaced, _⟩ := dequeue_split isHead .posted
  generalize ahead queue journal = before at split replaced
  have joins : postings (fun entry => transfer entry.item) isPosted
      ((⟨queue, item, .posted⟩ : Record Q A) :: after) =
        transfer item ::
          postings (fun entry => transfer entry.item) isPosted after := rfl
  have waits : postings (fun entry => transfer entry.item) isPosted
      ((⟨queue, item, .waiting⟩ : Record Q A) :: after) =
        postings (fun entry => transfer entry.item) isPosted after := rfl
  rw [replaced, split, postings_append, postings_append, joins, waits,
    List.append_assoc]
  exact (List.perm_append_singleton _ _).symm.append_left _

theorem postings_dequeue_lost
    (isHead : queued queue journal = item :: items) :
    postings (fun entry => transfer entry.item) isPosted
        (dequeue queue .lost journal) =
      postings (fun entry => transfer entry.item) isPosted journal := by
  obtain ⟨after, split, replaced, _⟩ := dequeue_split isHead .lost
  generalize ahead queue journal = before at split replaced
  rw [replaced, split, postings_append, postings_append]
  rfl

/-- An item may be posted once what its payer had received before is. -/
theorem grounded_dequeue (isHead : queued queue journal = item :: items)
    (grounded : Grounded (fun entry => transfer entry.item) isPosted journal)
    {progress : Fate}
    (receipts : progress = .posted → ∀ entry ∈ ahead queue journal,
      (transfer entry.item).payee = (transfer item).payer →
        entry.isPosted = true) :
    Grounded (fun entry => transfer entry.item) isPosted
      (dequeue queue progress journal) := by
  obtain ⟨after, split, replaced, _⟩ := dequeue_split isHead progress
  generalize ahead queue journal = before at split replaced receipts
  rw [split] at grounded
  rw [replaced]
  unfold Grounded at grounded ⊢
  rw [List.pairwise_append, List.pairwise_cons] at grounded ⊢
  obtain ⟨first, ⟨behind, second⟩, across⟩ := grounded
  refine ⟨first, ⟨?_, second⟩, ?_⟩
  · -- nothing behind the item was paid out of it
    intro later member isLater paid
    have := behind later member isLater paid
    contradiction
  · intro earlier member later isLater laterPosted paid
    rcases List.mem_cons.mp isLater with rfl | behind
    · exact receipts (of_decide_eq_true laterPosted) earlier member paid
    · exact across earlier member later (List.mem_cons_of_mem _ behind)
        laterPosted paid

section Enqueue

omit [DecidableEq Q]

theorem not_isPosted_enqueue {entry : Record Q A}
    (member : entry ∈ enqueue queue items) : entry.isPosted ≠ true := by
  obtain ⟨item, _, rfl⟩ := List.mem_map.mp member
  simp [isPosted]

theorem postings_enqueue (queue : Q) (items : List A) :
    postings (fun entry => transfer entry.item) isPosted
      (enqueue queue items) = [] := by
  unfold postings
  rw [List.map_eq_nil_iff, List.filter_eq_nil_iff]
  intro entry member
  exact not_isPosted_enqueue member

theorem grounded_enqueue
    (grounded : Grounded (fun entry => transfer entry.item) isPosted journal)
    (queue : Q) (items : List A) :
    Grounded (fun entry => transfer entry.item) isPosted
      (journal ++ enqueue queue items) := by
  unfold Grounded at grounded ⊢
  rw [List.pairwise_append]
  refine ⟨grounded, ?_, ?_⟩
  · apply List.pairwise_of_forall_mem_list
    intro earlier _ later member isPosted
    exact absurd isPosted (not_isPosted_enqueue member)
  · intro earlier _ later member isPosted
    exact absurd isPosted (not_isPosted_enqueue member)

end Enqueue

end Record

end Predix.Data
