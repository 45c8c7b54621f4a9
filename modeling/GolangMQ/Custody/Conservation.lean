import GolangMQ.Custody.Ledger

/-! # Coverage, conservation and order of a ledger

Three step lemmas, each for all operations it can hold of. Coverage holds of every operation as long
as stamps are distinct: a store that replaces or drops a tag then replaces or drops the same message.
Conservation adds the one condition under which a retraction undoes exactly its delivery. The FIFO
equation holds of the operations that put nothing back into the buffer.
-/

namespace GolangMQ.Custody.Ledger

variable {M C T : Type*} [DecidableEq M] [DecidableEq C] [DecidableEq T]
  {tag : M → T} {stamp : ℕ → T} {k k' : Ledger M C} {op : Op M C}

/-- No operation takes a stamp back. -/
theorem Step.issued_le (step : Step tag stamp k op k') : k.issued ≤ k'.issued := by
  cases step <;> simp

/-- A stamped message carries the next stamp. -/
theorem Step.tag_eq {m : M} (step : Step tag stamp k (.stamp m) k') : tag m = stamp k.issued := by
  cases step with
  | stamp next => exact next

/-- Stamps that are distinct after an operation were distinct before it. -/
theorem Distinct.before (step : Step tag stamp k op k') (distinct : Distinct stamp k') :
    Distinct stamp k := by
  refine List.Nodup.sublist ?_ distinct
  exact List.Sublist.map stamp (List.range_sublist.mpr step.issued_le)

section Unique

omit [DecidableEq M] [DecidableEq C] [DecidableEq T]

theorem Sound.nodup_tags (sound : Sound tag stamp k) (distinct : Distinct stamp k) :
    (k.enqueued.map tag).Nodup := by
  have all : ((k.enqueued.map tag : Multiset T) + k.transit.map tag).Nodup := by
    rw [sound.stamps]
    exact Multiset.coe_nodup.mpr distinct
  exact Multiset.coe_nodup.mp (Multiset.nodup_of_le (Multiset.le_add_right _ _) all)

/-- With distinct stamps, a tag names one enqueued message. -/
theorem Sound.eq_of_tag (sound : Sound tag stamp k) (distinct : Distinct stamp k) {a b : M}
    (left : a ∈ k.enqueued) (right : b ∈ k.enqueued) (same : tag a = tag b) : a = b :=
  List.inj_on_of_nodup_map (sound.nodup_tags distinct) left right same

end Unique

omit [DecidableEq M] [DecidableEq C] in
/-- Taking the tag of `m` from a store takes no other enqueued message. -/
private theorem Sound.mem_without_of_ne (sound : Sound tag stamp k) (distinct : Distinct stamp k)
    {c : C} {m x : M} (known : m ∈ k.enqueued) (holds : x ∈ k.held c) (other : x ≠ m) :
    x ∈ without tag (k.held c) (tag m) := by
  refine mem_without.mpr ⟨holds, fun same => other ?_⟩
  exact sound.eq_of_tag distinct (sound.heldKnown c x holds) known same

omit [DecidableEq M] in
/-- After the tag of `m` is taken from a member, every other message is held where it was. -/
private theorem Sound.held_after_drop (sound : Sound tag stamp k) (distinct : Distinct stamp k)
    {c : C} {m x : M} (known : m ∈ k.enqueued) (other : x ≠ m) (holds : ∃ c' ∈ k.members, x ∈ k.held c') :
    ∃ c' ∈ k.members, x ∈ Function.update k.held c (without tag (k.held c) (tag m)) c' := by
  obtain ⟨c', member, holds⟩ := holds
  refine ⟨c', member, ?_⟩
  by_cases same : c' = c
  · subst same
    rw [Function.update_self]
    exact sound.mem_without_of_ne distinct known holds other
  · rwa [Function.update_of_ne same]

/-- No operation loses a message while stamps are distinct. -/
theorem Covered.step (covered : Covered k) (sound : Sound tag stamp k)
    (step : Step tag stamp k op k') (distinct : Distinct stamp k') : Covered k' := by
  have distinctBefore := distinct.before step
  intro x member
  cases step with
  | stamp => exact covered x member
  | @enqueue m stamped =>
    rcases List.mem_append.mp member with old | new
    · rcases covered x old with settled | queued | held | limbo
      · exact .inl settled
      · exact .inr (.inl (List.mem_append_left _ queued))
      · exact .inr (.inr (.inl held))
      · exact .inr (.inr (.inr limbo))
    · exact .inr (.inl (List.mem_append_right _ new))
  | @join c =>
    rcases covered x member with settled | queued | ⟨c', inside, held⟩ | limbo
    · exact .inl settled
    · exact .inr (.inl queued)
    · exact .inr (.inr (.inl ⟨c', Finset.mem_insert_of_mem inside, held⟩))
    · exact .inr (.inr (.inr limbo))
  | @deliver c m rest inside head idle =>
    have known : m ∈ k.enqueued := sound.queuedKnown m (head ▸ List.mem_cons_self ..)
    -- The delivered message is held by `c`; the store keeps every other message it had.
    by_cases delivered : x = m
    · subst delivered
      refine .inr (.inr (.inl ⟨c, inside, ?_⟩))
      dsimp only
      rw [Function.update_self]
      exact Multiset.mem_cons_self ..
    · rcases covered x member with settled | queued | ⟨c', inside', held⟩ | limbo
      · exact .inl settled
      · rw [head] at queued
        exact .inr (.inl (List.mem_of_ne_of_mem delivered queued))
      · refine .inr (.inr (.inl ⟨c', inside', ?_⟩))
        dsimp only
        by_cases same : c' = c
        · subst same
          rw [Function.update_self]
          exact Multiset.mem_cons_of_mem (sound.mem_without_of_ne distinctBefore known held delivered)
        · rwa [Function.update_of_ne same]
      · exact .inr (.inr (.inr limbo))
  | confirm => exact covered x member
  | @retract c m active =>
    by_cases retracted : x = m
    · exact .inr (.inl (retracted ▸ List.mem_cons_self ..))
    · rcases covered x member with settled | queued | held | limbo
      · exact .inl settled
      · exact .inr (.inl (List.mem_cons_of_mem _ queued))
      · exact .inr (.inr (.inl
          (sound.held_after_drop distinctBefore (sound.writingKnown c m active) retracted held)))
      · exact .inr (.inr (.inr limbo))
  | @settle c m holds =>
    by_cases done : x = m
    · exact .inl (done ▸ Multiset.mem_cons_self ..)
    · rcases covered x member with settled | queued | held | limbo
      · exact .inl (Multiset.mem_cons_of_mem settled)
      · exact .inr (.inl queued)
      · exact .inr (.inr (.inl
          (sound.held_after_drop distinctBefore (sound.heldKnown c m holds) done held)))
      · exact .inr (.inr (.inr limbo))
  | @withdraw c m holds =>
    by_cases withdrawn : x = m
    · exact .inr (.inr (.inr (withdrawn ▸ Multiset.mem_cons_self ..)))
    · rcases covered x member with settled | queued | held | limbo
      · exact .inl settled
      · exact .inr (.inl queued)
      · exact .inr (.inr (.inl
          (sound.held_after_drop distinctBefore (sound.heldKnown c m holds) withdrawn held)))
      · exact .inr (.inr (.inr (Multiset.mem_cons_of_mem limbo)))
  | @requeue m withdrawn =>
    by_cases requeued : x = m
    · exact .inr (.inl (requeued ▸ List.mem_cons_self ..))
    · rcases covered x member with settled | queued | held | limbo
      · exact .inl settled
      · exact .inr (.inl (List.mem_cons_of_mem _ queued))
      · exact .inr (.inr (.inl held))
      · exact .inr (.inr (.inr ((Multiset.mem_erase_of_ne requeued).mpr limbo)))
  | @leave c order inside all =>
    rcases covered x member with settled | queued | ⟨c', inside', held⟩ | limbo
    · exact .inl settled
    · exact .inr (.inl (List.mem_append_right _ queued))
    · by_cases same : c' = c
      · subst same
        rw [← all, Multiset.mem_coe] at held
        exact .inr (.inl (List.mem_append_left _ (List.mem_reverse.mpr held)))
      · refine .inr (.inr (.inl ⟨c', Finset.mem_erase_of_ne_of_mem same inside', ?_⟩))
        dsimp only
        rwa [Function.update_of_ne same]
    · exact .inr (.inr (.inr limbo))

/-- A retraction that undoes a delivery the member still holds. -/
def Intact (k : Ledger M C) : Op M C → Prop
  | .retract c m => m ∈ k.held c
  | _ => True

/-- What an operation brings into custody. -/
def arriving : Op M C → Multiset M
  | .stamp m => {m}
  | _ => 0

/-- What an operation takes out of custody. -/
def leaving : Op M C → Multiset M
  | .settle _ m => {m}
  | _ => 0

omit [DecidableEq M] in
/-- Taking a held message from a member takes exactly that message from the live ones. -/
private theorem Sound.sum_drop (sound : Sound tag stamp k) {c : C} {m : M} (holds : m ∈ k.held c) :
    m ::ₘ ∑ c' ∈ k.members, Function.update k.held c (without tag (k.held c) (tag m)) c' =
      ∑ c' ∈ k.members, k.held c' := by
  have member : c ∈ k.members := by
    by_contra outside
    rw [sound.confined c outside] at holds
    exact Multiset.notMem_zero m holds
  have exchanged := Finset.sum_update_add member k.held (without tag (k.held c) (tag m))
  rw [← cons_without (sound.heldTags c) holds, Multiset.add_cons, ← Multiset.cons_add] at exchanged
  rw [cons_without (sound.heldTags c) holds] at exchanged
  exact add_right_cancel exchanged

omit [DecidableEq M] in
/-- Delivering a message whose tag the member does not hold adds it to the live ones. -/
private theorem sum_deliver {c : C} {m : M} (member : c ∈ k.members)
    (absent : ∀ x ∈ k.held c, tag x ≠ tag m) :
    ∑ c' ∈ k.members, Function.update k.held c (m ::ₘ without tag (k.held c) (tag m)) c' =
      m ::ₘ ∑ c' ∈ k.members, k.held c' := by
  have exchanged := Finset.sum_update_add member k.held (m ::ₘ without tag (k.held c) (tag m))
  rw [without_of_absent absent, Multiset.add_cons, ← Multiset.cons_add] at exchanged
  rw [without_of_absent absent]
  exact add_right_cancel exchanged

omit [DecidableEq M] [DecidableEq C] [DecidableEq T] in
/-- When every tag is in custody once, the head of the buffer has a tag that nobody holds. -/
theorem Exclusive.absent_of_head (exclusive : Exclusive tag k) {c : C} {m : M} {rest : List M}
    (member : c ∈ k.members) (head : k.queued = m :: rest) : ∀ x ∈ k.held c, tag x ≠ tag m := by
  intro x holds same
  have unique : ((k.queued : Multiset M) + ∑ c' ∈ k.members, k.held c').map tag |>.Nodup := by
    refine Multiset.nodup_of_le (Multiset.map_le_map ?_) exclusive
    exact le_trans (Multiset.le_add_right _ _) (Multiset.le_add_right _ _)
  rw [head, ← Multiset.cons_coe, Multiset.cons_add, Multiset.map_cons, Multiset.nodup_cons] at unique
  refine unique.1 (same ▸ Multiset.mem_map_of_mem tag (Multiset.mem_add.mpr (.inr ?_)))
  exact Multiset.mem_sum.mpr ⟨c, member, holds⟩

omit [DecidableEq M] [DecidableEq T] in
/-- No two members hold messages with the same tag. -/
theorem Exclusive.holder_unique (exclusive : Exclusive tag k) {c c' : C} (member : c ∈ k.members)
    (member' : c' ∈ k.members) {m m' : M} (holds : m ∈ k.held c) (holds' : m' ∈ k.held c') (same : tag m = tag m') :
    c = c' := by
  by_contra other
  have unique : ((∑ i ∈ k.members, k.held i).map tag).Nodup := by
    refine Multiset.nodup_of_le (Multiset.map_le_map ?_) exclusive
    exact le_trans (Multiset.le_add_left _ _) (le_trans (Multiset.le_add_right _ _) (Multiset.le_add_right _ _))
  rw [← Finset.add_sum_erase _ _ member, Multiset.map_add, Multiset.nodup_add] at unique
  refine Multiset.disjoint_left.1 unique.2.2 (Multiset.mem_map_of_mem tag holds) ?_
  rw [same]
  refine Multiset.mem_map_of_mem tag (Multiset.mem_sum.2 ⟨c', ?_, holds'⟩)
  exact Finset.mem_erase.2 ⟨fun equal => other equal.symm, member'⟩

/-- Operations move messages within custody: only a stamp adds one, only a settlement removes one. -/
theorem custody_step (sound : Sound tag stamp k) (exclusive : Exclusive tag k)
    (step : Step tag stamp k op k') (intact : Intact k op) : k'.custody + leaving op = k.custody + arriving op := by
  unfold custody live
  cases step with
  | @stamp m next =>
    simp only [arriving, leaving, ← Multiset.singleton_add]
    abel
  | @enqueue m stamped =>
    obtain ⟨others, split⟩ := Multiset.exists_cons_of_mem stamped
    simp only [arriving, leaving, split, Multiset.erase_cons_head, ← Multiset.coe_add, Multiset.coe_singleton]
    simp only [← Multiset.singleton_add]
    abel
  | @join c =>
    by_cases inside : c ∈ k.members
    · simp only [arriving, leaving, Finset.insert_eq_of_mem inside]
    · simp only [arriving, leaving, Finset.sum_insert inside, sound.confined c inside, zero_add]
  | @deliver c m rest inside head idle =>
    have received := sum_deliver inside (exclusive.absent_of_head inside head)
    simp only [arriving, leaving, received, head, ← Multiset.cons_coe]
    simp only [← Multiset.singleton_add]
    abel
  | confirm => rfl
  | @retract c m active =>
    simp only [arriving, leaving, ← sound.sum_drop intact, ← Multiset.cons_coe, ← Multiset.singleton_add]
    abel
  | @settle c m holds =>
    simp only [arriving, leaving, ← sound.sum_drop holds, ← Multiset.singleton_add]
    abel
  | @withdraw c m holds =>
    simp only [arriving, leaving, ← sound.sum_drop holds, ← Multiset.singleton_add]
    abel
  | @requeue m withdrawn =>
    obtain ⟨others, split⟩ := Multiset.exists_cons_of_mem withdrawn
    simp only [arriving, leaving, split, Multiset.erase_cons_head, ← Multiset.cons_coe]
    simp only [← Multiset.singleton_add]
    abel
  | @leave c order inside all =>
    have others : ∑ c' ∈ k.members.erase c, Function.update k.held c 0 c' = ∑ c' ∈ k.members.erase c, k.held c' := by
      apply Finset.sum_congr rfl
      intro c' other
      rw [Function.update_of_ne (Finset.ne_of_mem_erase other)]
    rw [← Finset.add_sum_erase _ _ inside]
    simp only [arriving, leaving, others, ← Multiset.coe_add, Multiset.coe_reverse, all]
    abel

/-- A stamp that nothing in custody carries. -/
def Fresh (tag : M → T) (k : Ledger M C) : Op M C → Prop
  | .stamp m => ∀ x ∈ k.custody, tag x ≠ tag m
  | _ => True

omit [DecidableEq M] [DecidableEq C] [DecidableEq T] in
theorem exclusive_initial : Exclusive tag (initial : Ledger M C) := by
  simp [Exclusive, custody, live, initial]

/-- Tags stay exclusive as long as stamps are fresh and retractions undo deliveries still held. -/
theorem Exclusive.step (exclusive : Exclusive tag k) (sound : Sound tag stamp k) (step : Step tag stamp k op k')
    (intact : Intact k op) (fresh : Fresh tag k op) : Exclusive tag k' := by
  have moved := custody_step sound exclusive step intact
  unfold Exclusive at exclusive ⊢
  have unique : ((k.custody + arriving op).map tag).Nodup := by
    cases op with
    | stamp m =>
      rw [arriving, add_comm, Multiset.singleton_add, Multiset.map_cons, Multiset.nodup_cons, Multiset.mem_map]
      exact ⟨fun ⟨x, member, same⟩ => fresh x member same, exclusive⟩
    | _ => simpa only [arriving, add_zero] using exclusive
  rw [← moved] at unique
  exact Multiset.nodup_of_le (Multiset.map_le_map (Multiset.le_add_right _ _)) unique

omit [DecidableEq M] [DecidableEq C] [DecidableEq T] in
/-- With distinct stamps, a ledger that accounts for every message once has exclusive tags. -/
theorem Conserved.exclusive (conserved : Conserved k) (sound : Sound tag stamp k) (distinct : Distinct stamp k) :
    Exclusive tag k := by
  have unique : ((k.settled + k.custody).map tag).Nodup := by
    rw [← conserved, Multiset.map_add, Multiset.map_coe, sound.stamps]
    exact Multiset.coe_nodup.mpr distinct
  exact Multiset.nodup_of_le (Multiset.map_le_map (Multiset.le_add_left _ _)) unique

/-- Every operation that retracts only what is still held accounts for every message once. -/
theorem Conserved.step (conserved : Conserved k) (sound : Sound tag stamp k)
    (step : Step tag stamp k op k') (intact : Intact k op) (distinct : Distinct stamp k') :
    Conserved k' := by
  have moved := custody_step sound (conserved.exclusive sound (distinct.before step)) step intact
  have entered : (k'.enqueued : Multiset M) + k'.transit = k.enqueued + k.transit + arriving op := by
    cases step with
    | @enqueue m stamped =>
      obtain ⟨others, split⟩ := Multiset.exists_cons_of_mem stamped
      simp only [arriving, split, Multiset.erase_cons_head, ← Multiset.coe_add, Multiset.coe_singleton]
      simp only [← Multiset.singleton_add]
      abel
    | @stamp m next =>
      simp only [arriving, ← Multiset.singleton_add]
      abel
    | _ => simp only [arriving, add_zero]
  have left : k'.settled = k.settled + leaving op := by
    cases step with
    | @settle c m holds => rw [leaving, add_comm, Multiset.singleton_add]
    | _ => simp only [leaving, add_zero]
  calc (k'.enqueued : Multiset M) + k'.transit
      = k.settled + (k.custody + arriving op) := by rw [entered, conserved, add_assoc]
    _ = k'.settled + k'.custody := by rw [← moved, left]; abel

omit [DecidableEq C] [DecidableEq T] in
/-- With every message accounted for once, none is in custody twice or in custody after being settled. -/
theorem Conserved.count_custody_le (conserved : Conserved k) (sound : Sound tag stamp k)
    (distinct : Distinct stamp k) (m : M) : k.settled.count m + k.custody.count m ≤ 1 := by
  have unique : (((k.enqueued : Multiset M) + k.transit).map tag).Nodup := by
    rw [Multiset.map_add, Multiset.map_coe, sound.stamps]
    exact Multiset.coe_nodup.mpr distinct
  rw [← Multiset.count_add, ← conserved]
  exact Multiset.nodup_iff_count_le_one.mp (Multiset.Nodup.of_map tag unique) m

/-- The operations that never put a message back into the buffer. -/
def Forward : Op M C → Prop
  | .retract _ _ | .withdraw _ _ | .requeue _ | .leave _ _ => False
  | _ => True

omit [DecidableEq M] [DecidableEq C] in
theorem fifo_initial : Fifo (initial : Ledger M C) := rfl

/-- Without retractions, requeues and departures, messages leave in the order they came. -/
theorem Fifo.step (fifo : Fifo k) (step : Step tag stamp k op k') (forward : Forward op) : Fifo k' := by
  unfold Fifo at fifo ⊢
  cases step with
  | stamp | join | settle => exact fifo
  | enqueue => rw [← fifo]; simp only [List.append_assoc]
  | @deliver c m rest inside head idle =>
    rw [← fifo, idle, head]
    rfl
  | @confirm c m active =>
    rw [← fifo, active]
    simp
  | retract | withdraw | requeue | leave => exact forward.elim

/-- What has been delivered, or is being delivered, went to a member. -/
def Addressed (k : Ledger M C) : Prop :=
  (∀ delivery ∈ k.delivered, delivery.1 ∈ k.members) ∧ ∀ delivery ∈ k.writing, delivery.1 ∈ k.members

omit [DecidableEq M] [DecidableEq C] in
theorem addressed_initial : Addressed (initial : Ledger M C) := by simp [Addressed, initial]

/-- Without departures, deliveries stay addressed to members. -/
theorem Addressed.step (addressed : Addressed k) (step : Step tag stamp k op k') (forward : Forward op) :
    Addressed k' := by
  obtain ⟨delivered, writing⟩ := addressed
  cases step with
  | stamp | enqueue | settle => exact ⟨delivered, writing⟩
  | join =>
    exact ⟨fun delivery member => Finset.mem_insert_of_mem (delivered delivery member),
      fun delivery active => Finset.mem_insert_of_mem (writing delivery active)⟩
  | @deliver c m rest inside head idle =>
    refine ⟨delivered, ?_⟩
    rintro delivery active
    obtain rfl := Option.some.inj active
    exact inside
  | @confirm c m active =>
    refine ⟨fun delivery member => ?_, by simp⟩
    rcases List.mem_append.mp member with old | new
    · exact delivered delivery old
    · obtain rfl := List.mem_singleton.mp new
      exact writing (c, m) active
  | retract | withdraw | requeue | leave => exact forward.elim

end GolangMQ.Custody.Ledger
