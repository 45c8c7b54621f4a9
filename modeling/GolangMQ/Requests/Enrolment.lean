import GolangMQ.Requests.Registries

/-! # A registered consumer is attached to its channel

`RegisterConsumer` puts a consumer into the map of its queue first and into the map of its channel last.
Whatever clients do with their channels, a consumer in the first map is in the second one as well, unless
its `RegisterConsumer` has not returned. The consumer is new when it is registered and its tag is free,
so no other consumer loses its place.
-/

namespace GolangMQ.Model

open Machine

/-- Where `RegisterConsumer` stands. -/
inductive Enrolling (w : World) : List Section → Prop
  | none {errands : List Section} (quiet : ∀ s ∈ errands, s.joins = false) : Enrolling w errands
  | consume {ch : ChannelRef} {header : Header} {queue tag : String} : Enrolling w [.consume ch header queue tag]
  | register {c : ConsumerRef} {header : Header} (new : ¬ w.registered c)
      (fresh : (w.consumer c).tag ∉ (w.channel (w.consumer c).channel).consumers) :
      Enrolling w [.register c, .attach c header]
  | attach {c : ConsumerRef} {header : Header} (registered : w.registered c)
      (fresh : (w.consumer c).tag ∉ (w.channel (w.consumer c).channel).consumers) : Enrolling w [.attach c header]

/-- The registered consumers of connection `k` are attached to their channels, up to its errands. -/
structure Enrolled (w : World) (k : ConnectionRef) (errands : List Section) : Prop where
  enrolling : Enrolling w errands
  covered : ∀ c, w.owner c = k → w.registered c → (∃ header, .attach c header ∈ errands) ∨ w.attached c

variable {w w' : World} {label : Label} {k : ConnectionRef} {choice : Choice} {first : Section}
  {next rest left : List Section} {c : ConsumerRef} {ch : ChannelRef}

private theorem Enrolling.quiet (enrolling : Enrolling w (first :: left)) (other : first.joins = false) :
    ∀ s ∈ left, s.joins = false := by
  cases enrolling with
  | none quiet => exact fun s member => quiet s (List.mem_cons_of_mem _ member)
  | _ => contradiction

namespace Enrolled

/-- Who is waiting for `RegisterConsumer` to return does so in one place. -/
theorem attach_of_quiet (enrolled : Enrolled w k left) (quiet : ∀ s ∈ left, s.joins = false) (own : w.owner c = k)
    (registered : w.registered c) : w.attached c := by
  rcases enrolled.covered c own registered with ⟨header, pending⟩ | attached
  · exact absurd (quiet _ pending) (by simp [Section.joins])
  · exact attached

private theorem of_quiet (quiet : ∀ s ∈ left, s.joins = false)
    (covered : ∀ c, w.owner c = k → w.registered c → w.attached c) : Enrolled w k left :=
  ⟨.none quiet, fun c own registered => .inr (covered c own registered)⟩

/-- A step that leaves the consumers and the channels of a connection alone. -/
theorem transfer (enrolled : Enrolled w k left) (wellformed : Wellformed w) (owned : Owned w)
    (mine : ∀ s ∈ left, s.OwnedBy w k) (stepped : w.step? label = some w')
    (registered : ∀ c, w'.owner c = k → (w'.registered c ↔ w.registered c))
    (channel : ∀ ch < w.channel.size, (w.channel ch).conn = k → w'.channel ch = w.channel ch) : Enrolled w' k left := by
  have grows := World.grows_of_step stepped
  have fresh (c : ConsumerRef) (inside : c < w.consumer.size) (own : w.owner c = k)
      (fresh : (w.consumer c).tag ∉ (w.channel (w.consumer c).channel).consumers) :
      (w'.consumer c).tag ∉ (w'.channel (w'.consumer c).channel).consumers := by
    rwa [grows.store.channel inside, grows.store.tag inside, channel _ (owned.channelOf c inside) own]
  refine ⟨?_, fun c own now => ?_⟩
  · cases enrolled.enrolling with
    | none quiet => exact .none quiet
    | consume => exact .consume
    | @register c header new unused =>
      obtain ⟨inside, own⟩ := (mine _ (List.mem_cons_self ..)).consumers c (by simp)
      refine .register (fun now => new ?_) (fresh c inside own unused)
      exact (registered c ((owned.owner_step grows inside).trans own)).1 now
    | @attach c header before unused =>
      obtain ⟨inside, own⟩ := (mine _ (List.mem_cons_self ..)).consumers c (by simp)
      exact .attach ((registered c ((owned.owner_step grows inside).trans own)).2 before) (fresh c inside own unused)
  · have before := (registered c own).1 now
    have inside := World.registered_inside wellformed before
    have own := (owned.owner_step grows inside).symm.trans own
    refine (enrolled.covered c own before).imp_right ?_
    exact (grows.attached_iff inside (channel _ (owned.channelOf c inside) own)).2

/-- `unregisterConsumer`. -/
theorem unregister (enrolled : Enrolled w k (.unregister c :: left)) (wellformed : Wellformed w) (owned : Owned w)
    (stepped : w.step? label = some w') (channel : w'.channel = w.channel)
    (gone : ∀ c', w'.registered c' ↔ c' ≠ c ∧ w.registered c') : Enrolled w' k left := by
  have grows := World.grows_of_step stepped
  refine .of_quiet (enrolled.enrolling.quiet rfl) fun c' own now => ?_
  have before := ((gone c').1 now).2
  have inside := World.registered_inside wellformed before
  rw [grows.attached_iff inside (by rw [channel])]
  refine enrolled.attach_of_quiet (fun s member => ?_) ((owned.owner_step grows inside).symm.trans own) before
  rcases List.mem_cons.1 member with rfl | old
  · rfl
  · exact enrolled.enrolling.quiet rfl s old

/-- `registerConsumer`. -/
theorem register (enrolled : Enrolled w k (.register c :: left)) (wellformed : Wellformed w) (owned : Owned w)
    (mine : c < w.consumer.size) (stepped : w.step? label = some w') (channel : w'.channel = w.channel)
    (joined : ∀ c', w'.registered c' ↔ c' = c ∨ w.registered c') : Enrolled w' k left := by
  have grows := World.grows_of_step stepped
  cases enrolled.enrolling with
  | none quiet => exact absurd (quiet _ (List.mem_cons_self ..)) (by simp [Section.joins])
  | @register _ header new fresh =>
    refine ⟨.attach ((joined c).2 (.inl rfl)) ?_, fun c' own now => ?_⟩
    · rwa [grows.store.channel mine, grows.store.tag mine, channel]
    · rcases (joined c').1 now with rfl | before
      · exact .inl ⟨header, List.mem_singleton_self _⟩
      · have inside := World.registered_inside wellformed before
        rw [grows.attached_iff inside (by rw [channel])]
        simpa using enrolled.covered c' ((owned.owner_step grows inside).symm.trans own) before

/-- The last statements of `RegisterConsumer`. -/
theorem attach {header : Header} (enrolled : Enrolled w k (.attach c header :: left)) (wellformed : Wellformed w)
    (owned : Owned w) (mine : c < w.consumer.size) (stepped : w.step? label = some w')
    (channel : w'.channel = w.channel.modify (w.consumer c).channel (·.attach (w.consumer c).tag c))
    (same : ∀ c', w'.registered c' ↔ w.registered c') : Enrolled w' k left := by
  have grows := World.grows_of_step stepped
  cases enrolled.enrolling with
  | none quiet => exact absurd (quiet _ (List.mem_cons_self ..)) (by simp [Section.joins])
  | @attach _ _ registered fresh =>
    refine .of_quiet (by simp) fun c' own now => ?_
    have before := (same c').1 now
    have inside := World.registered_inside wellformed before
    rw [attached_of_attach owned mine grows fresh channel inside]
    rcases enrolled.covered c' ((owned.owner_step grows inside).symm.trans own) before with
      ⟨header', pending⟩ | attached
    · cases List.mem_singleton.1 pending
      exact .inl rfl
    · exact .inr attached

/-- `RegisterConsumer` finds the queue and a free tag. -/
theorem consume {header : Header} {queue tag : String} (enrolled : Enrolled w k (.consume ch header queue tag :: left))
    (new : ¬ w.registered c) (fresh : (w.consumer c).tag ∉ (w.channel (w.consumer c).channel).consumers) :
    Enrolled w k (.register c :: .attach c header :: left) := by
  cases enrolled.enrolling with
  | none quiet => exact absurd (quiet _ (List.mem_cons_self ..)) (by simp [Section.joins])
  | consume =>
    refine ⟨.register new fresh, fun c' own registered => .inr ?_⟩
    simpa using enrolled.covered c' own registered

private theorem refused {header : Header} {queue tag : String}
    (enrolled : Enrolled w k (.consume ch header queue tag :: left)) :
    Enrolled w k left := by
  cases enrolled.enrolling with
  | none quiet => exact absurd (quiet _ (List.mem_cons_self ..)) (by simp [Section.joins])
  | consume => exact .of_quiet (by simp) fun c' own registered => by simpa using enrolled.covered c' own registered

end Enrolled

/-- One step of the goroutine itself. -/
private theorem enrolled_of_run (enrolled : Enrolled w k (w.errands k)) (wellformed : Wellformed w) (owned : Owned w)
    (stepped : w.step? (.run k choice) = some w') : Enrolled w' k (w'.errands k) := by
  have ran := World.steps_of_step stepped
  cases ran with
  | @run _ _ first rest next middle inside pending runs rests =>
    have mine := owned.errands pending
    rw [World.errands, pending] at enrolled
    rw [rests.errands_setTodo inside]
    have reading (registered : ∀ c, (middle.setTodo k (next ++ rest)).registered c ↔ w.registered c)
        (channel : middle.channel = w.channel) {sections : List Section} (held : Enrolled w k sections)
        (among : ∀ s ∈ sections, s ∈ first :: rest.filter Section.errand) :
        Enrolled (middle.setTodo k (next ++ rest)) k sections := by
      refine held.transfer wellformed owned (fun s member => mine s (among s member)) stepped
        (fun c _ => registered c) ?_
      intro ch _ _
      exact congrFun (congrArg Heap.cell channel) ch
    -- An errand that is not one of `RegisterConsumer` leads to none of them, and has none behind it.
    have replaced (registered : ∀ c, (middle.setTodo k (next ++ rest)).registered c ↔ w.registered c)
        (channel : middle.channel = w.channel) (errand : first.errand = true) (other : first.joins = false)
        (quiet : ∀ s ∈ next, s.joins = false) :
        Enrolled (middle.setTodo k (next ++ rest)) k (next.filter Section.errand ++ rest.filter Section.errand) := by
      rw [List.filter_cons_of_pos errand] at enrolled
      have before := enrolled.enrolling.quiet other
      have later := reading registered channel enrolled fun s member => member
      refine .of_quiet (fun s member => ?_) fun c own registered =>
        later.attach_of_quiet (fun s member => ?_) own registered
      · rcases List.mem_append.1 member with new | old
        · exact quiet s (List.mem_of_mem_filter new)
        · exact before s old
      · rcases List.mem_cons.1 member with rfl | old
        · exact other
        · exact before s old
    have leads (s : Section) (member : s ∈ next) : Leads first s := leads_of_runs runs member
    by_cases errand : first.errand = true
    · cases runs with
      | consumeRefused => exact (reading (fun _ => .rfl) rfl enrolled fun s member => member).refused
      | @consume ch header queue tag q declared fresh =>
        have new : ((w.apply (.newConsumer (w.consumerTag ch tag) q ch)).consumer w.consumer.size) =
            { tag := w.consumerTag ch tag, queue := q, channel := ch } := w.consumer.cell_alloc_self _
        refine (reading (fun _ => .rfl) rfl enrolled fun s member => member).consume (fun registered => ?_) ?_
        · have before : w.registered w.consumer.size := registered
          exact absurd (World.registered_inside wellformed before) (Nat.lt_irrefl _)
        · change ((w.apply (.newConsumer (w.consumerTag ch tag) q ch)).consumer w.consumer.size).tag ∉
            (w.channel
              ((w.apply (.newConsumer (w.consumerTag ch tag) q ch)).consumer w.consumer.size).channel).consumers
          rw [new]
          exact fresh
      | @register c =>
        obtain ⟨known, -⟩ := (mine _ (List.mem_cons_self ..)).consumers c (by simp)
        exact enrolled.register wellformed owned known stepped rfl (World.registered_registerConsumer wellformed known)
      | @attach c header =>
        obtain ⟨known, -⟩ := (mine _ (List.mem_cons_self ..)).consumers c (by simp)
        exact enrolled.attach wellformed owned known stepped rfl fun _ => .rfl
      | @unregister c free member all =>
        obtain ⟨known, -⟩ := (mine _ (List.mem_cons_self ..)).consumers c (by simp)
        exact enrolled.unregister wellformed owned stepped rfl
          (World.registered_unregisterConsumer wellformed known choice.messages)
      | unregistered | cleanup | teardown | depart =>
        refine replaced (fun _ => .rfl) rfl rfl rfl fun s member => ?_
        cases leads s member <;> rfl
      | _ => contradiction
    · rw [List.filter_cons_of_neg errand] at enrolled
      rw [errands_of_runs (Bool.eq_false_of_not_eq_true errand) runs, List.nil_append]
      have reads : first.alters = false := by cases first <;> first | rfl | exact absurd rfl errand
      have undisturbed := undisturbed_of_run wellformed pending reads stepped
      exact enrolled.transfer wellformed owned (fun s member => mine s (List.mem_cons_of_mem _ member)) stepped
        undisturbed.registered undisturbed.channel
  | dispatch ofDispatcher => contradiction

/-- The errands of a new request. -/
private theorem errands_handle (w : World) (k : ConnectionRef) (env : Envelope) :
    (∀ s ∈ (w.handle k env).2.filter Section.errand, s.joins = false) ∨
      ∃ ch header queue tag, (w.handle k env).2.filter Section.errand = [.consume ch header queue tag] := by
  refine w.handle_cases k env (P := fun _ next => (∀ s ∈ next.filter Section.errand, s.joins = false) ∨
    ∃ ch header queue tag, next.filter Section.errand = [.consume ch header queue tag])
    (fun _ _ => .inl (by simp [Section.errand])) (fun _ => .inl fun s member => ?_)
    (fun _ => .inl (by simp [Section.errand])) (fun ch _ => ?_)
  · rcases List.mem_append.1 (List.mem_of_mem_filter member) with cleanup | last
    · obtain ⟨ch, -, rfl⟩ := Option.map_eq_some_iff.1 (Option.mem_toList.1 cleanup)
      rfl
    · rw [List.mem_singleton.1 last]
      rfl
  · rcases errands_route ch env with none | ⟨header, queue, tag, consumes⟩
    · exact .inl (by simp [none])
    · exact .inr ⟨ch, header, queue, tag, consumes⟩

theorem enrolled_of_reachable {ok : World → Label → Prop} (reached : broker.Reachable ok w) :
    ∀ k, Enrolled w k (w.errands k) := by
  refine reached.invariant (P := fun w => ∀ k, Enrolled w k (w.errands k)) (fun k => ?_) ?_
  · refine .of_quiet (by simp [World.errands, broker, World.todo, default]) fun c _ registered => ?_
    obtain ⟨q, member⟩ := registered
    exact absurd member (Finset.notMem_empty c)
  intro source target label before enrolled _ stepped k
  have stepped : source.step? label = some target := stepped
  have wellformed := wellformed_of_reachable before
  have owned := owned_of_reachable before
  by_cases runs : ∃ choice, label = .run k choice
  · obtain ⟨choice, rfl⟩ := runs
    exact enrolled_of_run (enrolled k) wellformed owned stepped
  have still : ∀ choice, label ≠ .run k choice := fun choice same => runs ⟨choice, same⟩
  have kept : Enrolled target k (source.errands k) :=
    (enrolled k).transfer wellformed owned (fun s member => owned.sections k s (List.mem_of_mem_filter member)) stepped
      (fun c own => registered_of_other wellformed owned still stepped own)
      (fun ch inside conn => channel_of_other owned still stepped inside conn)
  obtain ⟨effect, -, happens⟩ := World.happens_of_step stepped
  rcases World.todo_of_other happens still with todo | ⟨env, rfl, todo⟩ | ⟨rfl, todo⟩
  · rw [World.errands, todo]
    exact kept
  · cases World.steps_of_step stepped with
    | request alive idle =>
      rw [World.errands, idle] at kept
      have covered (c : ConsumerRef) := kept.attach_of_quiet (c := c) (by simp)
      rw [World.errands, todo]
      rcases errands_handle source k env with quiet | ⟨ch, header, queue, tag, consumes⟩
      · exact .of_quiet quiet covered
      · rw [consumes]
        exact ⟨.consume, fun c own registered => .inr (covered c own registered)⟩
    | dispatch ofDispatcher => contradiction
  · cases World.steps_of_step stepped with
    | disconnect alive idle =>
      rw [World.errands, idle] at kept
      rw [World.errands, todo]
      exact .of_quiet (by simp [Section.errand, Section.joins]) fun c => kept.attach_of_quiet (by simp)
    | dispatch ofDispatcher => contradiction

end GolangMQ.Model
