import GolangMQ.Requests.Routing

/-! # The order in which a departing consumer's messages come back

`unregisterConsumer` puts the pending messages of a consumer back one by one, each at the head of the queue, in the
order in which Go happens to iterate the map. The queue ends up with the reverse of that order at its head.
-/

namespace GolangMQ.Model

open Machine

variable {w : World} {k : ConnectionRef} {c : ConsumerRef} {rest : List Section}

private theorem Queue.messages_unregisterConsumer (queue : Queue) (c : ConsumerRef) (order : List Message) :
    (queue.unregisterConsumer c order).messages = order.reverse ++ queue.messages := by
  simp [Queue.unregisterConsumer]

/-- The messages that have been published to a queue, in the order of publishing. -/
def Queue.published (queue : Queue) : List Message := queue.log.enqueued.map Entry.message

/-- `unregisterConsumer` for a registered consumer, with the map iterated in this order. -/
private theorem World.steps_unregister {order : List Message} (reached : broker.Reachable anyStep w)
    (pending : w.todo k = .unregister c :: rest) (free : w.lockFree (w.consumer c).queue)
    (registered : c ∈ (w.queue (w.consumer c).queue).consumers)
    (iterates : order.Perm (w.consumer c).pendingMessages.values) :
    ∃ w', w.step? (.run k { messages := order }) = some w' ∧
      (w'.queue (w.consumer c).queue).messages = order.reverse ++ (w.queue (w.consumer c).queue).messages := by
  have wellformed := wellformed_of_reachable reached
  have known := (wellformed.members _ c registered).1
  have ran : w.runSection k { messages := order } (.unregister c) =
      some ((w.count fun m => { m with consumersUnregistered := bump m.consumersUnregistered (w.queueName c) }).apply
        (.unregisterConsumer c order), [.signal (w.consumer c).queue]) := by
    simp only [World.runSection, free, registered, iterates, not_true_eq_false, if_false, if_true]
  obtain ⟨stepped, -⟩ := World.steps_section pending ran
  refine ⟨_, stepped, ?_⟩
  rw [← Queue.messages_unregisterConsumer _ c]
  exact congrArg Queue.messages (w.queue.cell_modify_self (·.unregisterConsumer c order) (wellformed.queueOf c known))

/-- The queue of `c` has the messages that were pending with `c`, in the order of publishing, and then those it had. -/
def World.KeepsOrder (w w' : World) (c : ConsumerRef) : Prop :=
  ∃ inOrder : List Message, inOrder.Perm (w.consumer c).pendingMessages.values ∧
    inOrder.Sublist (w.queue (w.consumer c).queue).published ∧
    (w'.queue (w.consumer c).queue).messages = inOrder ++ (w.queue (w.consumer c).queue).messages

/-- The departure of a consumer keeps the order of publishing exactly when the iteration goes from its newest message
to the oldest. -/
theorem departure_keeps_order_iff {order : List Message} (reached : broker.Reachable anyStep w)
    (pending : w.todo k = .unregister c :: rest) (free : w.lockFree (w.consumer c).queue)
    (registered : c ∈ (w.queue (w.consumer c).queue).consumers)
    (iterates : order.Perm (w.consumer c).pendingMessages.values) :
    ∃ w', w.step? (.run k { messages := order }) = some w' ∧
      (w.KeepsOrder w' c ↔ order.reverse.Sublist (w.queue (w.consumer c).queue).published) := by
  obtain ⟨w', stepped, messages⟩ := World.steps_unregister reached pending free registered iterates
  refine ⟨w', stepped, fun ⟨inOrder, _, published, kept⟩ => ?_, fun published => ?_⟩
  · rw [messages, List.append_left_inj] at kept
    rwa [kept]
  · exact ⟨order.reverse, order.reverse_perm.trans iterates, published, messages⟩

/-- The message with this tag and this body. -/
def numbered (tag : UInt16) (body : UInt8) : Message := ⟨tag, [body], "ex", "key"⟩

/-- The first two of three messages have been delivered, and the channel of their consumer closes. -/
def departing : List Label :=
  topology ++ consuming ++ publishing [7] ++ publishing [8] ++ publishing [9] ++ dispatching 0 0 ++ [.written 0] ++
    dispatching 0 0 ++ [.written 0, .request 0 ⟨1, 0, false, .channelClose⟩, .run 0 { refs := [0] }]

/-- The map is iterated from the second message to the first. -/
theorem departure_keeps_order_newest_first :
    let w := broker.replay anyStep departing
    ∃ w', w.step? (.run 0 { messages := [numbered 2 8, numbered 1 7] }) = some w' ∧ w.KeepsOrder w' 0 := by
  intro w
  have pending : w.todo 0 = [.unregister 0, .reply ⟨⟨1, 0⟩, .channelCloseOK 1⟩] := by decide +kernel
  have iterates : [numbered 2 8, numbered 1 7].Perm (w.consumer 0).pendingMessages.values := by decide +kernel
  obtain ⟨w', stepped, keeps⟩ :=
    departure_keeps_order_iff (.of_replay departing) pending (by decide +kernel) (by decide +kernel) iterates
  exact ⟨w', stepped, keeps.2 (by decide +kernel)⟩

/-- The map is iterated from the first message to the second: they change places, also for the next consumer. -/
theorem departure_reverses_order :
    let w := broker.replay anyStep departing
    let w' := broker.replay anyStep (departing ++ [.run 0 { messages := [numbered 1 7, numbered 2 8] }])
    let later := broker.replay anyStep (departing ++ [.run 0 { messages := [numbered 1 7, numbered 2 8] }] ++
      [.run 0 {}, .run 0 {}] ++ served 0 ⟨0, 0, false, .channelOpen 1⟩ [{}] ++ consuming ++
      dispatching 0 1 ++ [.written 0] ++ dispatching 0 1 ++ [.written 0] ++ dispatching 0 1 ++ [.written 0])
    (w.queue 0).published = [numbered 1 7, numbered 2 8, numbered 3 9] ∧
      (w.consumer 0).pendingMessages.values = [numbered 2 8, numbered 1 7] ∧ (w.queue 0).messages = [numbered 3 9] ∧
      (w'.queue 0).messages = [numbered 2 8, numbered 1 7, numbered 3 9] ∧ ¬w.KeepsOrder w' 0 ∧
      (later.queue 0).log.delivered.map (fun (c, event) => (c, event.body)) =
        [(0, [7]), (0, [8]), (1, [8]), (1, [7]), (1, [9])] := by
  intro w w' later
  refine ⟨by decide +kernel, by decide +kernel, by decide +kernel, by decide +kernel, ?_, by decide +kernel⟩
  rintro ⟨inOrder, -, published, kept⟩
  have messages : (w'.queue 0).messages = [numbered 2 8, numbered 1 7] ++ (w.queue 0).messages := by decide +kernel
  have here : (w.consumer 0).queue = 0 := by decide +kernel
  rw [here, messages, List.append_left_inj] at kept
  rw [here, ← kept] at published
  exact absurd published (by decide +kernel)

end GolangMQ.Model
