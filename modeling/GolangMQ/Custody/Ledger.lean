import GolangMQ.ToMathlib.Collections
import Mathlib.Algebra.Order.Group.Multiset
import Mathlib.Algebra.BigOperators.Group.Finset.Lemmas

/-! # Custody of messages in a queue with acknowledged delivery

A ledger says who answers for each message of one queue: a producer that has stamped it but not yet
enqueued it, the buffer, a member that holds it unacknowledged, or a handler that has withdrawn it
from a member in order to requeue it. A member stores its deliveries by tag, so a delivery replaces
whatever the member held under that tag. The three histories `enqueued`, `settled` and `delivered`
are observations.

Stamps are drawn from `stamp 0, stamp 1, …`, and may repeat. The results below ask for distinct
stamps among those issued so far (`Distinct`) exactly where they need them. Retracting a delivery is
the one operation that does not look at the custody it undoes: coverage survives it, conservation
holds along runs that retract only deliveries still held.
-/

namespace GolangMQ.Custody

/-- Where the messages of one queue are, and what has happened to them. -/
structure Ledger (M C : Type*) where
  queued : List M
  members : Finset C
  held : C → Multiset M
  limbo : Multiset M
  transit : Multiset M
  writing : Option (C × M)
  issued : ℕ
  enqueued : List M
  settled : Multiset M
  delivered : List (C × M)

/-- The operations, one for each critical section that moves a message. -/
inductive Op (M C : Type*) where
  | stamp (m : M)
  | enqueue (m : M)
  | join (c : C)
  | deliver (c : C) (m : M)
  | confirm (c : C) (m : M)
  | retract (c : C) (m : M)
  | settle (c : C) (m : M)
  | withdraw (c : C) (m : M)
  | requeue (m : M)
  | leave (c : C) (order : List M)

namespace Ledger

variable {M C T : Type*}

/-- The ledger of a queue that has not been used. -/
def initial : Ledger M C where
  queued := []
  members := ∅
  held _ := 0
  limbo := 0
  transit := 0
  writing := none
  issued := 0
  enqueued := []
  settled := 0
  delivered := []

variable [DecidableEq M] [DecidableEq C] [DecidableEq T] (tag : M → T) (stamp : ℕ → T)

/-- What a member holds after everything under one tag is taken from it. -/
def without (held : Multiset M) (t : T) : Multiset M := held.filter fun m => tag m ≠ t

/-- One operation. Delivery and retraction act on the member's store by tag, as the store does. -/
inductive Step : Ledger M C → Op M C → Ledger M C → Prop
  | stamp {k : Ledger M C} {m : M} (next : tag m = stamp k.issued) :
      Step k (.stamp m) { k with transit := m ::ₘ k.transit, issued := k.issued + 1 }
  | enqueue {k : Ledger M C} {m : M} (stamped : m ∈ k.transit) :
      Step k (.enqueue m) { k with
        transit := k.transit.erase m, queued := k.queued ++ [m], enqueued := k.enqueued ++ [m] }
  | join {k : Ledger M C} {c : C} : Step k (.join c) { k with members := insert c k.members }
  | deliver {k : Ledger M C} {c : C} {m : M} {rest : List M} (member : c ∈ k.members)
      (head : k.queued = m :: rest) (idle : k.writing = none) :
      Step k (.deliver c m) { k with
        queued := rest, writing := some (c, m)
        held := Function.update k.held c (m ::ₘ without tag (k.held c) (tag m)) }
  | confirm {k : Ledger M C} {c : C} {m : M} (active : k.writing = some (c, m)) :
      Step k (.confirm c m) { k with writing := none, delivered := k.delivered ++ [(c, m)] }
  | retract {k : Ledger M C} {c : C} {m : M} (active : k.writing = some (c, m)) :
      Step k (.retract c m) { k with
        queued := m :: k.queued, writing := none
        held := Function.update k.held c (without tag (k.held c) (tag m)) }
  | settle {k : Ledger M C} {c : C} {m : M} (holds : m ∈ k.held c) :
      Step k (.settle c m) { k with
        held := Function.update k.held c (without tag (k.held c) (tag m)), settled := m ::ₘ k.settled }
  | withdraw {k : Ledger M C} {c : C} {m : M} (holds : m ∈ k.held c) :
      Step k (.withdraw c m) { k with
        held := Function.update k.held c (without tag (k.held c) (tag m)), limbo := m ::ₘ k.limbo }
  | requeue {k : Ledger M C} {m : M} (withdrawn : m ∈ k.limbo) :
      Step k (.requeue m) { k with limbo := k.limbo.erase m, queued := m :: k.queued }
  | leave {k : Ledger M C} {c : C} {order : List M} (member : c ∈ k.members)
      (all : (order : Multiset M) = k.held c) :
      Step k (.leave c order) { k with
        members := k.members.erase c, held := Function.update k.held c 0
        queued := order.reverse ++ k.queued }

/-- The stamps issued so far are pairwise different. -/
def Distinct (k : Ledger M C) : Prop := ((List.range k.issued).map stamp).Nodup

/-- What holds of every ledger, whether or not stamps repeat. -/
structure Sound (k : Ledger M C) : Prop where
  stamps : (k.enqueued.map tag : Multiset T) + k.transit.map tag = ((List.range k.issued).map stamp : Multiset T)
  confined : ∀ c, c ∉ k.members → k.held c = 0
  heldTags : ∀ c, ((k.held c).map tag).Nodup
  queuedKnown : ∀ m ∈ k.queued, m ∈ k.enqueued
  heldKnown : ∀ c, ∀ m ∈ k.held c, m ∈ k.enqueued
  limboKnown : ∀ m ∈ k.limbo, m ∈ k.enqueued
  writingKnown : ∀ c m, k.writing = some (c, m) → m ∈ k.enqueued
  settledKnown : ∀ m ∈ k.settled, m ∈ k.enqueued

/-- Every enqueued message is settled or somewhere in custody. -/
def Covered (k : Ledger M C) : Prop :=
  ∀ m ∈ k.enqueued, m ∈ k.settled ∨ m ∈ k.queued ∨ (∃ c ∈ k.members, m ∈ k.held c) ∨ m ∈ k.limbo

/-- The buffer together with what the members hold. -/
def live (k : Ledger M C) : Multiset M := (k.queued : Multiset M) + ∑ c ∈ k.members, k.held c

/-- Every message that has a stamp and is not settled, wherever it is. -/
def custody (k : Ledger M C) : Multiset M := k.live + k.limbo + k.transit

/-- Every message that was ever stamped is settled or in custody, and only once. -/
def Conserved (k : Ledger M C) : Prop :=
  (k.enqueued : Multiset M) + k.transit = k.settled + k.custody

/-- No two messages in custody carry the same tag. -/
def Exclusive (k : Ledger M C) : Prop := (k.custody.map tag).Nodup

/-- What has been written, what is being written and what is queued, in the order of enqueueing. -/
def Fifo (k : Ledger M C) : Prop :=
  k.delivered.map Prod.snd ++ (k.writing.toList.map Prod.snd ++ k.queued) = k.enqueued

section Store

variable {tag}

omit [DecidableEq M] in
theorem mem_without {held : Multiset M} {t : T} {m : M} :
    m ∈ without tag held t ↔ m ∈ held ∧ tag m ≠ t := Multiset.mem_filter

omit [DecidableEq M] in
private theorem without_le (held : Multiset M) (t : T) : without tag held t ≤ held := Multiset.filter_le _ _

omit [DecidableEq M] in
/-- A store with one message for each tag is the message under a tag and the rest. -/
theorem cons_without {held : Multiset M} (unique : (held.map tag).Nodup) {m : M} (holds : m ∈ held) :
    m ::ₘ without tag held (tag m) = held := by
  obtain ⟨rest, rfl⟩ := Multiset.exists_cons_of_mem holds
  rw [Multiset.map_cons, Multiset.nodup_cons] at unique
  have kept : ∀ other ∈ rest, tag other ≠ tag m := by
    intro other member same
    exact unique.1 (same ▸ Multiset.mem_map_of_mem tag member)
  rw [without, Multiset.filter_cons_of_neg _ (by simp), Multiset.filter_eq_self.mpr kept]

omit [DecidableEq M] in
theorem without_of_absent {held : Multiset M} {t : T} (absent : ∀ m ∈ held, tag m ≠ t) :
    without tag held t = held := Multiset.filter_eq_self.mpr absent

omit [DecidableEq M] in
private theorem nodup_without {held : Multiset M} (unique : (held.map tag).Nodup) (t : T) :
    ((without tag held t).map tag).Nodup :=
  Multiset.nodup_of_le (Multiset.map_le_map (without_le held t)) unique

omit [DecidableEq M] in
private theorem nodup_cons_without {held : Multiset M} (unique : (held.map tag).Nodup) (m : M) :
    ((m ::ₘ without tag held (tag m)).map tag).Nodup := by
  rw [Multiset.map_cons, Multiset.nodup_cons]
  refine ⟨?_, nodup_without unique _⟩
  rw [Multiset.mem_map]
  rintro ⟨other, member, same⟩
  exact (mem_without.mp member).2 same

end Store

variable {tag stamp} {k k' : Ledger M C} {op : Op M C}

omit [DecidableEq M] [DecidableEq C] [DecidableEq T] in
theorem sound_initial : Sound tag stamp (initial : Ledger M C) where
  stamps := rfl
  confined _ _ := rfl
  heldTags _ := Multiset.nodup_zero
  queuedKnown _ member := absurd member List.not_mem_nil
  heldKnown _ _ member := absurd member (Multiset.notMem_zero _)
  limboKnown _ member := absurd member (Multiset.notMem_zero _)
  writingKnown _ _ active := absurd active (by simp [initial])
  settledKnown _ member := absurd member (Multiset.notMem_zero _)

omit [DecidableEq M] [DecidableEq T] in
/-- Updating one member's store keeps a property of stores that the new store has. -/
private theorem forall_held_update {P : C → Multiset M → Prop} {c : C} {store : Multiset M}
    (kept : ∀ c, P c (k.held c)) (new : P c store) : ∀ c', P c' (Function.update k.held c store c') := by
  intro c'
  by_cases same : c' = c
  · subst same
    rwa [Function.update_self]
  · rw [Function.update_of_ne same]
    exact kept c'

omit [DecidableEq M] [DecidableEq T] in
/-- A store may be replaced by one that is keyed by tag, known, and empty outside the members. -/
private theorem Sound.update (sound : Sound tag stamp k) (c : C) (store : Multiset M)
    (unique : (store.map tag).Nodup) (known : ∀ m ∈ store, m ∈ k.enqueued)
    (confined : c ∉ k.members → store = 0) :
    (∀ c', c' ∉ k.members → Function.update k.held c store c' = 0) ∧
      (∀ c', ((Function.update k.held c store c').map tag).Nodup) ∧
      ∀ c', ∀ m ∈ Function.update k.held c store c', m ∈ k.enqueued :=
  ⟨forall_held_update (P := fun c' store => c' ∉ k.members → store = 0) sound.confined confined,
    forall_held_update (P := fun _ store => (store.map tag).Nodup) sound.heldTags unique,
    forall_held_update (P := fun _ store => ∀ m ∈ store, m ∈ k.enqueued) sound.heldKnown known⟩

omit [DecidableEq M] in
private theorem Sound.drop (sound : Sound tag stamp k) (c : C) (t : T) :
    (∀ c', c' ∉ k.members → Function.update k.held c (without tag (k.held c) t) c' = 0) ∧
      (∀ c', ((Function.update k.held c (without tag (k.held c) t) c').map tag).Nodup) ∧
      ∀ c', ∀ m ∈ Function.update k.held c (without tag (k.held c) t) c', m ∈ k.enqueued :=
  sound.update c _ (nodup_without (sound.heldTags c) t)
    (fun m member => sound.heldKnown c m (mem_without.mp member).1)
    (fun outside => by rw [sound.confined c outside]; rfl)

/-- Every operation keeps the ledger sound. -/
theorem Sound.step (sound : Sound tag stamp k) (step : Step tag stamp k op k') : Sound tag stamp k' := by
  cases step with
  | @stamp m next =>
    refine { sound with stamps := ?_ }
    rw [Multiset.map_cons, List.range_succ, List.map_append, List.map_singleton, ← Multiset.coe_add,
      ← sound.stamps, ← next, Multiset.coe_singleton, add_assoc, add_comm _ {tag m}, Multiset.singleton_add]
  | @enqueue m stamped =>
    have grow {x : M} (member : x ∈ k.enqueued) : x ∈ k.enqueued ++ [m] := List.mem_append_left _ member
    refine ⟨?_, sound.confined, sound.heldTags, ?_, fun c x member => grow (sound.heldKnown c x member),
      fun x member => grow (sound.limboKnown x member), fun c x active => grow (sound.writingKnown c x active),
      fun x member => grow (sound.settledKnown x member)⟩
    · rw [← sound.stamps, List.map_append, ← Multiset.coe_add, List.map_singleton, Multiset.coe_singleton,
        add_assoc, Multiset.singleton_add, ← Multiset.map_cons, Multiset.cons_erase stamped]
    · intro x member
      rcases List.mem_append.mp member with old | new
      · exact grow (sound.queuedKnown x old)
      · exact List.mem_append_right _ new
  | @join c =>
    refine { sound with confined := ?_ }
    intro c' outside
    exact sound.confined c' fun member => outside (Finset.mem_insert_of_mem member)
  | @deliver c m rest member head idle =>
    have known : m ∈ k.enqueued := sound.queuedKnown m (head ▸ List.mem_cons_self ..)
    obtain ⟨confined, heldTags, heldKnown⟩ := sound.update c
      (m ::ₘ without tag (k.held c) (tag m)) (nodup_cons_without (sound.heldTags c) m)
      (by
        intro x holds
        rcases Multiset.mem_cons.mp holds with rfl | holds
        · exact known
        · exact sound.heldKnown c x (mem_without.mp holds).1)
      (fun outside => absurd member outside)
    refine ⟨sound.stamps, confined, heldTags, ?_, heldKnown, sound.limboKnown, ?_, sound.settledKnown⟩
    · intro x inRest
      exact sound.queuedKnown x (head ▸ List.mem_cons_of_mem _ inRest)
    · intro c' x active
      obtain ⟨rfl, rfl⟩ := Prod.mk.inj (Option.some.inj active)
      exact known
  | @confirm c m active =>
    exact { sound with writingKnown := by simp }
  | @retract c m active =>
    obtain ⟨confined, heldTags, heldKnown⟩ := sound.drop c (tag m)
    refine ⟨sound.stamps, confined, heldTags, ?_, heldKnown, sound.limboKnown,
      by simp, sound.settledKnown⟩
    intro x member
    rcases List.mem_cons.mp member with rfl | member
    · exact sound.writingKnown c x active
    · exact sound.queuedKnown x member
  | @settle c m holds =>
    obtain ⟨confined, heldTags, heldKnown⟩ := sound.drop c (tag m)
    refine ⟨sound.stamps, confined, heldTags, sound.queuedKnown, heldKnown, sound.limboKnown,
      sound.writingKnown, ?_⟩
    intro x member
    rcases Multiset.mem_cons.mp member with rfl | member
    · exact sound.heldKnown c x holds
    · exact sound.settledKnown x member
  | @withdraw c m holds =>
    obtain ⟨confined, heldTags, heldKnown⟩ := sound.drop c (tag m)
    refine ⟨sound.stamps, confined, heldTags, sound.queuedKnown, heldKnown, ?_, sound.writingKnown,
      sound.settledKnown⟩
    intro x member
    rcases Multiset.mem_cons.mp member with rfl | member
    · exact sound.heldKnown c x holds
    · exact sound.limboKnown x member
  | @requeue m withdrawn =>
    refine { sound with
      queuedKnown := ?_, limboKnown := fun x member => sound.limboKnown x (Multiset.mem_of_mem_erase member) }
    intro x member
    rcases List.mem_cons.mp member with rfl | member
    · exact sound.limboKnown x withdrawn
    · exact sound.queuedKnown x member
  | @leave c order member all =>
    obtain ⟨confined, heldTags, heldKnown⟩ := sound.update c 0 Multiset.nodup_zero
      (fun x none => absurd none (Multiset.notMem_zero x)) (fun _ => rfl)
    refine ⟨sound.stamps, ?_, heldTags, ?_, heldKnown, sound.limboKnown, sound.writingKnown, sound.settledKnown⟩
    · intro c' outside
      by_cases same : c' = c
      · subst same
        exact Function.update_self ..
      · exact confined c' fun inside => outside (Finset.mem_erase_of_ne_of_mem same inside)
    · intro x queued
      rcases List.mem_append.mp queued with pending | old
      · exact sound.heldKnown c x (all ▸ Multiset.mem_coe.mpr (List.mem_reverse.mp pending))
      · exact sound.queuedKnown x old

end Ledger

end GolangMQ.Custody
