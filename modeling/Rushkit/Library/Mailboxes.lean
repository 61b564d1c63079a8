import Mathlib.Data.Bool.Basic
import Mathlib.Data.List.Forall2
import Mathlib.Logic.Function.Basic
import Mathlib.Logic.Relation

/-! Two parties with a queue of messages for each. A party takes some from the front of its
queue, and its answers go to the end of the other's. -/
namespace Mailboxes
variable {μ : Type}

structure Boxes (μ : Type) where
  handled : Bool → List μ
  waiting : Bool → List μ

/-- The party has handled `taken`, is left with `rest`, and has sent `sent`. -/
def took (boxes : Boxes μ) (party : Bool) (taken rest sent : List μ) : Boxes μ where
  handled := Function.update boxes.handled party (boxes.handled party ++ taken)
  waiting := Function.update (Function.update boxes.waiting party rest) (!party) (boxes.waiting (!party) ++ sent)

section Took
variable (boxes : Boxes μ) (party : Bool) (taken rest sent : List μ)

@[simp] theorem tookHandled : (took boxes party taken rest sent).handled party = boxes.handled party ++ taken :=
  Function.update_self _ _ _

@[simp] theorem tookHandledOther : (took boxes party taken rest sent).handled (!party) = boxes.handled (!party) :=
  Function.update_of_ne (Bool.self_ne_not party).symm _ _

@[simp] theorem tookWaiting : (took boxes party taken rest sent).waiting party = rest :=
  (Function.update_of_ne (Bool.self_ne_not party) _ _).trans (Function.update_self _ _ _)

@[simp] theorem tookWaitingOther :
    (took boxes party taken rest sent).waiting (!party) = boxes.waiting (!party) ++ sent :=
  Function.update_self _ _ _

end Took

inductive Step (answers : Bool → μ → List μ → Prop) (boxes : Boxes μ) : Boxes μ → Prop where
  | take (party : Bool) {taken rest : List μ} {replies : List (List μ)} (waits : boxes.waiting party = taken ++ rest)
      (replied : List.Forall₂ (answers party) taken replies) :
      Step answers boxes (took boxes party taken rest replies.flatten)

abbrev Traffic (answers : Bool → μ → List μ → Prop) : Boxes μ → Boxes μ → Prop := Relation.ReflTransGen (Step answers)

theorem repliesGood {answers : μ → List μ → Prop} {good good' : μ → Prop}
    (closed : ∀ m ms, good m → answers m ms → ∀ reply ∈ ms, good' reply) {taken : List μ} {replies : List (List μ)}
    (replied : List.Forall₂ answers taken replies) (each : ∀ m ∈ taken, good m) :
    ∀ reply ∈ replies.flatten, good' reply := by
  induction replied with
  | nil => simp
  | @cons m ms taken replies first later ih =>
    obtain ⟨mine, others⟩ := List.forall_mem_cons.mp each
    rw [List.flatten_cons, List.forall_mem_append]
    exact ⟨closed m ms mine first, ih others⟩

structure Posted (answers : Bool → μ → List μ → Prop) (before after : Boxes μ) (taken : Bool → List μ)
    (replies : Bool → List (List μ)) (party : Bool) : Prop where
  handled : after.handled party = before.handled party ++ taken party
  replied : List.Forall₂ (answers party) (taken party) (replies party)
  inOrder : before.waiting party ++ (replies (!party)).flatten = taken party ++ after.waiting party

variable {answers : Bool → μ → List μ → Prop} {before after : Boxes μ}

theorem trafficPosted (run : Traffic answers before after) :
    ∃ taken replies, ∀ party, Posted answers before after taken replies party := by
  induction run with
  | refl => exact ⟨fun _ => [], fun _ => [], fun _ => ⟨by simp, .nil, by simp⟩⟩
  | @tail middle last _ step ih =>
    obtain ⟨taken, replies, each⟩ := ih
    cases step with
    | @take mover some rest more waits replied =>
      refine ⟨Function.update taken mover (taken mover ++ some), Function.update replies mover (replies mover ++ more),
        fun party => ?_⟩
      have mine := each mover
      have theirs := each (!mover)
      rcases Bool.eq_or_eq_not party mover with rfl | rfl
      · refine ⟨?_, ?_, ?_⟩
        · rw [tookHandled, mine.handled, Function.update_self, List.append_assoc]
        · rw [Function.update_self, Function.update_self]
          exact List.rel_append mine.replied replied
        · rw [Function.update_self, Function.update_of_ne (Bool.self_ne_not party).symm, tookWaiting, mine.inOrder, waits,
            List.append_assoc]
      · refine ⟨?_, ?_, ?_⟩
        · rw [tookHandledOther, theirs.handled, Function.update_of_ne (Bool.self_ne_not mover).symm]
        · rw [Function.update_of_ne (Bool.self_ne_not mover).symm, Function.update_of_ne (Bool.self_ne_not mover).symm]
          exact theirs.replied
        · have order := theirs.inOrder
          rw [Bool.not_not] at order ⊢
          rw [Function.update_self, Function.update_of_ne (Bool.self_ne_not mover).symm, tookWaitingOther,
            List.flatten_append, ← List.append_assoc, order, List.append_assoc]

def weigh (weight : μ → Nat) : List μ → Nat
  | [] => 0
  | m :: messages => weight m + weigh weight messages

theorem weighAppend (weight : μ → Nat) (messages more : List μ) :
    weigh weight (messages ++ more) = weigh weight messages + weigh weight more := by
  induction messages with
  | nil => exact (Nat.zero_add _).symm
  | cons m messages ih => rw [List.cons_append, weigh, weigh, ih, Nat.add_assoc]

theorem weighNothing {weight : μ → Nat} {messages : List μ} (none : ∀ m ∈ messages, weight m = 0) :
    weigh weight messages = 0 := by
  induction messages with
  | nil => rfl
  | cons m messages ih =>
    obtain ⟨first, later⟩ := List.forall_mem_cons.mp none
    rw [weigh, first, ih later]

def load (weight : μ → Nat) (boxes : Boxes μ) : Nat :=
  weigh weight (boxes.waiting true) + weigh weight (boxes.waiting false)

theorem loadParty (weight : μ → Nat) (boxes : Boxes μ) (party : Bool) :
    load weight boxes = weigh weight (boxes.waiting party) + weigh weight (boxes.waiting (!party)) := by
  cases party with
  | true => rfl
  | false => exact Nat.add_comm _ _

theorem repliesWeight {weight : μ → Nat} {party : Bool}
    (same : ∀ m ms, answers party m ms → weigh weight ms = weight m) {taken : List μ} {replies : List (List μ)}
    (replied : List.Forall₂ (answers party) taken replies) :
    weigh weight replies.flatten = weigh weight taken := by
  induction replied with
  | nil => rfl
  | @cons m ms taken replies first later ih =>
    rw [List.flatten_cons, weighAppend, same m ms first, ih]
    rfl

/-- Where the answers weigh what their message does, the queues together keep their weight. -/
theorem trafficLoad {weight : μ → Nat} (same : ∀ party m ms, answers party m ms → weigh weight ms = weight m)
    (run : Traffic answers before after) : load weight after = load weight before := by
  induction run with
  | refl => rfl
  | @tail middle last _ step ih =>
    cases step with
    | @take party taken rest replies waits replied =>
      have even := repliesWeight (same party) replied
      have start := loadParty weight middle party
      rw [waits, weighAppend] at start
      rw [loadParty weight _ party, tookWaiting, tookWaitingOther, weighAppend]
      omega

def handledCount (boxes : Boxes μ) : Nat := (boxes.handled true).length + (boxes.handled false).length

theorem handledCountParty (boxes : Boxes μ) (party : Bool) :
    handledCount boxes = (boxes.handled party).length + (boxes.handled (!party)).length := by
  cases party with
  | true => rfl
  | false => exact Nat.add_comm _ _

section Settling
variable {weight : μ → Nat} {good : μ → Prop}

theorem repliesLighter {party : Bool} (lighter : ∀ m ms, good m → answers party m ms → weigh weight ms < weight m)
    {taken : List μ} {replies : List (List μ)} (replied : List.Forall₂ (answers party) taken replies)
    (each : ∀ m ∈ taken, good m) : weigh weight replies.flatten + taken.length ≤ weigh weight taken := by
  induction replied with
  | nil => exact Nat.le_refl _
  | @cons m ms taken replies first later ih =>
    obtain ⟨mine, others⟩ := List.forall_mem_cons.mp each
    have less := lighter m ms mine first
    have rest := ih others
    have cost : weigh weight (m :: taken) = weight m + weigh weight taken := rfl
    rw [List.flatten_cons, weighAppend, List.length_cons, cost]
    omega

/-- Where the answers weigh less than their message, every message handled is paid from the weight. -/
theorem trafficSettles (closed : ∀ party m ms, good m → answers party m ms → ∀ reply ∈ ms, good reply)
    (lighter : ∀ party m ms, good m → answers party m ms → weigh weight ms < weight m)
    (each : ∀ party, ∀ m ∈ before.waiting party, good m) (run : Traffic answers before after) :
    (∀ party, ∀ m ∈ after.waiting party, good m) ∧
      handledCount after + load weight after ≤ handledCount before + load weight before := by
  induction run with
  | refl => exact ⟨each, Nat.le_refl _⟩
  | @tail middle last _ step ih =>
    obtain ⟨goods, bound⟩ := ih
    cases step with
    | @take party taken rest replies waits replied =>
      have queue := goods party
      rw [waits, List.forall_mem_append] at queue
      obtain ⟨front, back⟩ := queue
      have answered := repliesGood (closed party) replied front
      have paid := repliesLighter (lighter party) replied front
      have start := loadParty weight middle party
      have count := handledCountParty middle party
      rw [waits, weighAppend] at start
      refine ⟨fun other => ?_, ?_⟩
      · rcases Bool.eq_or_eq_not other party with rfl | rfl
        · rw [tookWaiting]
          exact back
        · rw [tookWaitingOther, List.forall_mem_append]
          exact ⟨goods _, answered⟩
      · rw [loadParty weight _ party, handledCountParty _ party, tookWaiting, tookWaitingOther, tookHandled,
          tookHandledOther, weighAppend, List.length_append]
        omega

end Settling

end Mailboxes
