import HbbCommon.Outbound.Writer
import HbbCommon.Outbound.Logic.QueueOrder

/-!
# The duplex writer over whole runs

Three invariants, each kept by every step: `Wake` (a writer that waits in vain has a call
that will still wake it), `Sends` (the transport gets what was dequeued, and nothing after a
send that did not succeed) and `Completions` (every completion is with its message, in the
queue or at the writer, until it is resolved).
-/

namespace HbbCommon.Outbound

open HbbCommon.Base
open HbbCommon.Transport (Bytes)

namespace OutboundState

variable {q : OutboundState}

theorem mem_pendingMessages {message : OutboundMessage} :
    message ∈ q.pendingMessages ↔
      (∃ entry ∈ q.entries, entryMessage entry = some message) ∨
        ∃ key, q.latest.get? key = some message := by
  rw [pendingMessages, List.mem_append, List.mem_filterMap, List.mem_map]
  refine or_congr_right ?_
  constructor
  · rintro ⟨⟨key, value⟩, hentry, rfl⟩
    exact ⟨key, OrdMap.mem_entries_iff.mp hentry⟩
  · rintro ⟨key, hget⟩
    exact ⟨(key, message), OrdMap.mem_entries_iff.mpr hget, rfl⟩

/-- What a call may do to the queue, as far as the writer is concerned. -/
structure Applied (q q' : OutboundState) (message : OutboundMessage) (result : EnqueueResult) :
    Prop where
  closed : q'.closed = q.closed
  pending : ∀ m ∈ q'.pendingMessages,
    m ∈ q.pendingMessages ∨ (result = .pushed ∨ result = .replaced) ∧ m = message
  reliable : ∀ m, .reliable m ∈ q.entries → .reliable m ∈ q'.entries
  grows : q'.entries ≠ [] → q.entries ≠ [] ∨ result = .pushed

theorem applied_reject (message : OutboundMessage) (error : EnqueueError) :
    Applied q (q.reject error).1 message (q.reject error).2 :=
  ⟨rfl, fun _ => .inl, fun _ => id, .inl⟩

theorem applied_pushBack {message : OutboundMessage} {entry : OutboundEntry}
    (hentry : entryMessage entry = some message) :
    Applied q (q.pushBack entry).1 message (q.pushBack entry).2 := by
  refine ⟨rfl, ?_, fun m hm => List.mem_append_left _ hm, fun _ => .inr rfl⟩
  intro m hm
  rw [mem_pendingMessages] at hm ⊢
  obtain ⟨e, he, hof⟩ | hlatest := hm
  · obtain he | he := List.mem_append.mp he
    · exact .inl (.inl ⟨e, he, hof⟩)
    · rw [List.mem_singleton.mp he, hentry] at hof
      exact .inr ⟨.inl rfl, (Option.some.inj hof).symm⟩
  · exact .inl (.inr hlatest)

theorem applied_enqueue (q : OutboundState) (message : OutboundMessage) :
    Applied q (q.enqueue message).1 message (q.enqueue message).2 := by
  obtain ⟨error, hcase⟩ | ⟨-, hcase⟩ := q.enqueue_cases message
  · rw [hcase]
    exact applied_reject message error
  · rw [hcase]
    exact applied_pushBack rfl

theorem applied_enqueueBarrier (q : OutboundState) (message : OutboundMessage) :
    Applied q (q.enqueueBarrier message).1 message (q.enqueueBarrier message).2 := by
  obtain ⟨error, hcase⟩ | ⟨-, hcase⟩ := q.enqueueBarrier_cases message
  · rw [hcase]
    exact applied_reject message error
  · rw [hcase]
    have hpushed := @applied_pushBack
      { q with latestGeneration := (q.latestGeneration + 1) % 2 ^ 64 } message
      (.reliable message) rfl
    exact ⟨hpushed.closed, hpushed.pending, hpushed.reliable, hpushed.grows⟩

theorem get?_of_insert {latest : OrdMap LatestKey OutboundMessage} {key : LatestKey}
    {message m : OutboundMessage}
    (h : ∃ k, (latest.insert key message).get? k = some m) :
    (∃ k, latest.get? k = some m) ∨ m = message := by
  obtain ⟨k, hk⟩ := h
  rw [OrdMap.get?_insert] at hk
  split at hk
  · exact .inr (Option.some.inj hk).symm
  · exact .inl ⟨k, hk⟩

theorem applied_enqueueLatest (q : OutboundState) (key : Nat) (message : OutboundMessage) :
    Applied q (q.enqueueLatest key message).1 message (q.enqueueLatest key message).2 := by
  obtain ⟨error, hcase, -⟩ | ⟨-, -, hcase⟩ | ⟨-, -, -, hcase⟩ := q.enqueueLatest_cases key message
  · rw [hcase]
    exact applied_reject message error
  · rw [hcase]
    refine ⟨rfl, ?_, fun _ => id, .inl⟩
    intro m hm
    rw [mem_pendingMessages] at hm ⊢
    obtain hentry | hlatest := hm
    · exact .inl (.inl hentry)
    · obtain hlatest | rfl := get?_of_insert hlatest
      · exact .inl (.inr hlatest)
      · exact .inr ⟨.inr rfl, rfl⟩
  · rw [hcase]
    refine ⟨rfl, ?_, fun m hm => List.mem_append_left _ hm, fun _ => .inr rfl⟩
    intro m hm
    rw [mem_pendingMessages] at hm ⊢
    obtain ⟨e, he, hof⟩ | hlatest := hm
    · obtain he | he := List.mem_append.mp he
      · exact .inl (.inl ⟨e, he, hof⟩)
      · rw [List.mem_singleton.mp he] at hof
        cases hof
    · obtain hlatest | rfl := get?_of_insert hlatest
      · exact .inl (.inr hlatest)
      · exact .inr ⟨.inl rfl, rfl⟩

/-- Retiring frames takes away nothing else. -/
theorem applied_retireVideo {display : Int} {key : Nat} {q' : OutboundState}
    {message : OutboundMessage} {result : EnqueueResult}
    (h : Applied (q.retireVideo display key) q' message result) : Applied q q' message result where
  closed := h.closed
  pending := by
    intro m hm
    refine (h.pending m hm).imp_left ?_
    rw [mem_pendingMessages, mem_pendingMessages]
    refine Or.imp_left ?_
    rintro ⟨entry, hentry, hof⟩
    exact ⟨entry, (List.mem_filter.mp hentry).1, hof⟩
  reliable := fun m hm => h.reliable m (List.mem_filter.mpr ⟨hm, rfl⟩)
  grows := by
    intro hne
    refine (h.grows hne).imp_left ?_
    intro hretired hnil
    exact hretired (by rw [retireVideo, hnil]; rfl)

theorem applied_enqueueVideo (q : OutboundState) (display : Int) (key : Nat)
    (message : OutboundMessage) :
    Applied q (q.enqueueVideo display key message).1 message
      (q.enqueueVideo display key message).2 := by
  obtain ⟨-, error, hcase⟩ | ⟨-, ⟨error, hcase⟩ | ⟨-, -, -, -, hcase⟩⟩ :=
    q.enqueueVideo_cases display key message
  · rw [hcase]
    exact applied_reject message error
  · rw [hcase]
    exact applied_retireVideo (applied_reject message error)
  · rw [hcase]
    exact applied_retireVideo (applied_pushBack rfl)

theorem applied_call (call : DuplexCall) (q : OutboundState) (message : OutboundMessage) :
    Applied q (call.apply q message).1 message (call.apply q message).2 := by
  cases call with
  | enqueue bytes kind encrypt => exact applied_enqueue q message
  | enqueueBarrier bytes kind => exact applied_enqueueBarrier q message
  | enqueueLatest key bytes kind => exact applied_enqueueLatest q key message
  | enqueueVideo display key bytes kind => exact applied_enqueueVideo q display key message
  | enqueueAndWait bytes kind => exact applied_enqueue q message

/-- A closed queue refuses every call. -/
theorem refused_of_closed (call : DuplexCall) (message : OutboundMessage)
    (h : q.closed = true) : (call.apply q message).2 = .refused .closed := by
  cases call <;>
    simp [DuplexCall.apply, enqueue, enqueueBarrier, enqueueLatest, enqueueVideo, reject, h]

/-- What `dequeue` may do to the queue, as far as the writer is concerned. -/
structure Popped (latest : OrdMap LatestKey OutboundMessage) (entries : List OutboundEntry)
    (result : List OutboundEntry × OrdMap LatestKey OutboundMessage ×
      Option (Place × OutboundMessage)) : Prop where
  entries_subset : ∀ entry ∈ result.1, entry ∈ entries
  latest_subset : ∀ key message, result.2.1.get? key = some message →
    latest.get? key = some message
  returned : ∀ item, result.2.2 = some item →
    (∃ entry ∈ entries, entryMessage entry = some item.2) ∨
      ∃ key, latest.get? key = some item.2
  reliable : ∀ message, .reliable message ∈ entries →
    result.2.2 = some (.reliable, message) ∨ .reliable message ∈ result.1
  empty : result.2.2 = none → result.1 = []

theorem popFront_popped (latest : OrdMap LatestKey OutboundMessage)
    (entries : List OutboundEntry) : Popped latest entries (popFront latest entries) := by
  induction entries with
  | nil =>
      exact ⟨fun _ => id, fun _ _ => id, fun _ h => (by cases h),
        fun _ h => (by cases h), fun _ => rfl⟩
  | cons entry entries ih =>
      cases entry with
      | reliable message =>
          refine ⟨fun _ => List.mem_cons_of_mem _, fun _ _ => id, ?_, ?_, fun h => (by cases h)⟩
          · rintro item ⟨⟩
            exact .inl ⟨_, List.mem_cons_self, rfl⟩
          · intro m hm
            obtain heq | hm := List.mem_cons.mp hm
            · cases heq
              exact .inl rfl
            · exact .inr hm
      | video display key message =>
          refine ⟨fun _ => List.mem_cons_of_mem _, fun _ _ => id, ?_, ?_, fun h => (by cases h)⟩
          · rintro item ⟨⟩
            exact .inl ⟨_, List.mem_cons_self, rfl⟩
          · intro m hm
            obtain heq | hm := List.mem_cons.mp hm
            · cases heq
            · exact .inr hm
      | latest key =>
          rw [popFront]
          cases hget : latest.get? key with
          | none =>
              -- an entry without content is skipped
              refine ⟨fun e he => List.mem_cons_of_mem _ (ih.entries_subset e he),
                ih.latest_subset, ?_, ?_, ih.empty⟩
              · intro item hitem
                refine (ih.returned item hitem).imp_left ?_
                rintro ⟨e, he, hof⟩
                exact ⟨e, List.mem_cons_of_mem _ he, hof⟩
              · intro m hm
                obtain heq | hm := List.mem_cons.mp hm
                · cases heq
                · exact ih.reliable m hm
          | some message =>
              refine ⟨fun _ => List.mem_cons_of_mem _, ?_, ?_, ?_, fun h => (by cases h)⟩
              · intro k m hk
                rw [OrdMap.get?_erase] at hk
                split at hk
                · cases hk
                · exact hk
              · rintro item ⟨⟩
                exact .inr ⟨key, hget⟩
              · intro m hm
                obtain heq | hm := List.mem_cons.mp hm
                · cases heq
                · exact .inr hm

theorem dequeue_closed : q.dequeue.1.closed = q.closed := rfl

theorem pendingMessages_dequeue {message : OutboundMessage}
    (h : message ∈ q.dequeue.1.pendingMessages) : message ∈ q.pendingMessages := by
  have hpopped := popFront_popped q.latest q.entries
  rw [mem_pendingMessages] at h ⊢
  obtain ⟨entry, hentry, hof⟩ | ⟨key, hget⟩ := h
  · exact .inl ⟨entry, hpopped.entries_subset entry hentry, hof⟩
  · exact .inr ⟨key, hpopped.latest_subset key message hget⟩

theorem mem_pendingMessages_of_dequeue {item : Place × OutboundMessage}
    (h : q.dequeue.2 = some item) : item.2 ∈ q.pendingMessages :=
  mem_pendingMessages.mpr ((popFront_popped q.latest q.entries).returned item h)

end OutboundState

namespace DuplexRun

variable {s s' : DuplexRun} {action : DuplexAction} {capacity : Nat}

/-- A message whose call waits for it is a reliable one. -/
theorem reliable_of_completion {call : DuplexCall} {sender id : Nat} {q : OutboundState}
    (hcompletion : (call.message sender).completion = some id)
    (haccepted : (call.apply q (call.message sender)).2 = .pushed ∨
      (call.apply q (call.message sender)).2 = .replaced) :
    id = sender ∧ (call.apply q (call.message sender)).2 = .pushed ∧
      .reliable (call.message sender) ∈ (call.apply q (call.message sender)).1.entries := by
  cases call with
  | enqueueAndWait bytes kind =>
      have hcases := q.enqueue_cases (DuplexCall.message sender (.enqueueAndWait bytes kind))
      refine ⟨(Option.some.inj hcompletion).symm, ?_⟩
      rw [DuplexCall.apply] at haccepted ⊢
      obtain ⟨error, hcase⟩ | ⟨-, hcase⟩ := hcases
      · rw [hcase] at haccepted
        obtain haccepted | haccepted := haccepted <;> cases haccepted
      · rw [hcase]
        exact ⟨rfl, List.mem_append_right _ List.mem_cons_self⟩
  | enqueue bytes kind encrypt => cases hcompletion
  | enqueueBarrier bytes kind => cases hcompletion
  | enqueueLatest key bytes kind => cases hcompletion
  | enqueueVideo display key bytes kind => cases hcompletion

/-- A call is refused, or accepted with or without a new entry. -/
theorem callStep_cases (s : DuplexRun) (call : DuplexCall) :
    ∃ queue,
      (∃ error, OutboundState.Applied s.queue queue (call.message s.senders) (.refused error) ∧
        s.callStep call = { s with queue := queue, senders := s.senders + 1 }) ∨
      (∃ result notifying, (result = .pushed ∧ notifying = s.notifying + 1 ∨
          result = .replaced ∧ notifying = s.notifying) ∧ s.queue.closed = false ∧
        OutboundState.Applied s.queue queue (call.message s.senders) result ∧
        (∀ id, (call.message s.senders).completion = some id →
          id = s.senders ∧ .reliable (call.message s.senders) ∈ queue.entries) ∧
        s.callStep call = { s with
          queue := queue, senders := s.senders + 1, notifying := notifying,
          accepted := s.accepted ++ [call.message s.senders] }) := by
  have happlied := OutboundState.applied_call call s.queue (call.message s.senders)
  have hopen : (∀ error, (call.apply s.queue (call.message s.senders)).2 ≠ .refused error) →
      s.queue.closed = false := by
    intro haccepted
    by_contra hclosed
    have hclosed := Bool.eq_true_of_not_eq_false hclosed
    exact haccepted _ (OutboundState.refused_of_closed call _ hclosed)
  refine ⟨(call.apply s.queue (call.message s.senders)).1, ?_⟩
  unfold callStep
  cases hresult : (call.apply s.queue (call.message s.senders)).2 with
  | refused error =>
      rw [hresult] at happlied
      exact .inl ⟨error, happlied, by simp [hresult]⟩
  | pushed =>
      rw [hresult] at happlied
      refine .inr ⟨.pushed, s.notifying + 1, .inl ⟨rfl, rfl⟩, hopen (by simp [hresult]),
        happlied, ?_, by simp [hresult]⟩
      intro id hid
      obtain ⟨heq, -, hmem⟩ := reliable_of_completion hid (.inl hresult)
      exact ⟨heq, hmem⟩
  | replaced =>
      rw [hresult] at happlied
      refine .inr ⟨.replaced, s.notifying, .inr ⟨rfl, rfl⟩, hopen (by simp [hresult]),
        happlied, ?_, by simp [hresult]⟩
      intro id hid
      obtain ⟨heq, -, hmem⟩ := reliable_of_completion hid (.inr hresult)
      exact ⟨heq, hmem⟩

/-- A round of `dequeue` returns a message, stops the writer or lets it wait. -/
theorem checkStep_cases (s : DuplexRun) :
    (∃ item, s.queue.dequeue.2 = some item ∧ s.checkStep = { s with
      queue := s.queue.dequeue.1, notify := s.notify.drop, writer := .taken item.2,
      dequeued := s.dequeued ++ [item.2] }) ∨
    s.queue.dequeue.2 = none ∧
      ((s.queue.closed = true ∧ s.checkStep = { s with
        queue := s.queue.dequeue.1, notify := s.notify.drop, writer := .stopped false }) ∨
      (s.queue.closed = false ∧
        s.checkStep = { s with queue := s.queue.dequeue.1, writer := .awaiting })) := by
  unfold checkStep
  cases hresult : s.queue.dequeue.2 with
  | some item => exact .inl ⟨item, rfl, by simp [hresult]⟩
  | none =>
      refine .inr ⟨rfl, ?_⟩
      cases hclosed : s.queue.closed with
      | true =>
          refine .inl ⟨rfl, ?_⟩
          simp [hresult, OutboundState.dequeue_closed, hclosed]
      | false =>
          refine .inr ⟨rfl, ?_⟩
          simp [hresult, OutboundState.dequeue_closed, hclosed]

/-- What a step can do. -/
inductive Stepped (s : DuplexRun) : DuplexAction → DuplexRun → Prop
  | call (call : DuplexCall) : Stepped s (.call call) (s.callStep call)
  | notifyOne : Stepped s .notifyOne
      { s with notify := s.notify.notifyOne, notifying := s.notifying - 1 }
  | close : Stepped s .close { s with queue := s.queue.close, closing := s.closing + 1 }
  | notifyWaiters : Stepped s .notifyWaiters
      { s with notify := s.notify.notifyWaiters, closing := s.closing - 1 }
  | notified (hwriter : s.writer = .idle) : Stepped s .notified
      { s with notify := s.notify.notified, writer := .checking }
  | check (hwriter : s.writer = .checking) : Stepped s .check s.checkStep
  | poll (hwriter : s.writer = .awaiting) : Stepped s .poll
      { s with
        notify := s.notify.poll.1, writer := if s.notify.poll.2 then .idle else .awaiting }
  | send {message : OutboundMessage} (hwriter : s.writer = .taken message) : Stepped s .send
      { s with writer := .sending message }
  | sent {message : OutboundMessage} (hwriter : s.writer = .sending message)
      (outcome : SendOutcome) : Stepped s (.sent outcome) (s.sentStep message outcome)
  | failPending (hwriter : s.writer = .failing) : Stepped s .failPending s.failStep

theorem stepped_of_step (h : s.step action = some s') : Stepped s action s' := by
  cases action with
  | call call =>
      cases h
      exact .call call
  | close =>
      cases h
      exact .close
  | notifyOne =>
      simp only [step, Option.ite_none_right_eq_some, Option.some.injEq] at h
      obtain ⟨-, rfl⟩ := h
      exact .notifyOne
  | notifyWaiters =>
      simp only [step, Option.ite_none_right_eq_some, Option.some.injEq] at h
      obtain ⟨-, rfl⟩ := h
      exact .notifyWaiters
  | notified =>
      simp only [step] at h
      split at h
      · rename_i hwriter
        cases h
        exact .notified hwriter
      · cases h
  | check =>
      simp only [step] at h
      split at h
      · rename_i hwriter
        cases h
        exact .check hwriter
      · cases h
  | poll =>
      simp only [step] at h
      split at h
      · rename_i hwriter
        cases h
        exact .poll hwriter
      · cases h
  | send =>
      simp only [step] at h
      split at h
      · rename_i hwriter
        cases h
        exact .send hwriter
      · cases h
  | sent outcome =>
      simp only [step] at h
      split at h
      · rename_i hwriter
        cases h
        exact .sent hwriter outcome
      · cases h
  | failPending =>
      simp only [step] at h
      split at h
      · rename_i hwriter
        cases h
        exact .failPending hwriter
      · cases h

/-! ## No lost wake-up -/

/-- A writer that waits although there is something to do was woken, or will be by a call that
is between its change of the queue and its notification. -/
structure Wake (s : DuplexRun) : Prop where
  created : s.writer = .checking ∨ s.writer = .awaiting → s.notify.future.isSome = true
  entries : s.writer = .awaiting → s.queue.entries ≠ [] →
    s.notify.ready = true ∨ 0 < s.notifying
  closed : s.writer = .awaiting → s.queue.closed = true → s.notify.ready = true ∨ 0 < s.closing

theorem wake_new (capacity : Nat) : Wake (new capacity) :=
  ⟨by simp [new], by simp [new], by simp [new]⟩

/-- A writer that is not in `dequeue` needs no wake-up. -/
theorem wake_of_busy (hcheck : s.writer ≠ .checking) (hawait : s.writer ≠ .awaiting) : Wake s :=
  ⟨fun h => h.elim (fun h => absurd h hcheck) (fun h => absurd h hawait),
    fun h => absurd h hawait, fun h => absurd h hawait⟩

theorem Wake.call (h : Wake s) (call : DuplexCall) : Wake (s.callStep call) := by
  obtain ⟨queue, ⟨error, happlied, hcase⟩ |
    ⟨result, notifying, hresult, -, happlied, -, hcase⟩⟩ := callStep_cases s call
  · rw [hcase]
    refine ⟨h.created, fun hawait hne => ?_, fun hawait hclosed => ?_⟩
    · exact h.entries hawait ((happlied.grows hne).resolve_right nofun)
    · exact h.closed hawait (happlied.closed ▸ hclosed)
  · rw [hcase]
    refine ⟨h.created, fun hawait hne => ?_, fun hawait hclosed => ?_⟩
    · obtain ⟨-, rfl⟩ | ⟨rfl, rfl⟩ := hresult
      · exact .inr (Nat.succ_pos _)
      · -- the place that was kept has its own notification
        exact h.entries hawait ((happlied.grows hne).resolve_right nofun)
    · exact h.closed hawait (happlied.closed ▸ hclosed)

theorem Wake.notifyOne (h : Wake s) :
    Wake { s with notify := s.notify.notifyOne, notifying := s.notifying - 1 } where
  created := fun hwriter => Notify.isSome_notifyOne.trans (h.created hwriter)
  entries := fun hawait _ => .inl (Notify.ready_notifyOne (h.created (.inr hawait)))
  closed := fun hawait _ => .inl (Notify.ready_notifyOne (h.created (.inr hawait)))

theorem Wake.notifyWaiters (h : Wake s) :
    Wake { s with notify := s.notify.notifyWaiters, closing := s.closing - 1 } where
  created := fun hwriter => Notify.isSome_notifyWaiters.trans (h.created hwriter)
  entries := fun hawait _ => .inl (Notify.ready_notifyWaiters (h.created (.inr hawait)))
  closed := fun hawait _ => .inl (Notify.ready_notifyWaiters (h.created (.inr hawait)))

/-- The writer waits only after it found an empty queue that was open. -/
theorem Wake.check (h : Wake s) (hwriter : s.writer = .checking) : Wake s.checkStep := by
  obtain ⟨item, -, hcase⟩ | ⟨hnone, ⟨-, hcase⟩ | ⟨hopen, hcase⟩⟩ := checkStep_cases s
  · rw [hcase]
    exact wake_of_busy (by simp) (by simp)
  · rw [hcase]
    exact wake_of_busy (by simp) (by simp)
  · rw [hcase]
    have hempty := (OutboundState.popFront_popped s.queue.latest s.queue.entries).empty hnone
    refine ⟨fun _ => h.created (.inl hwriter), fun _ hne => ?_, fun _ hclosed => ?_⟩
    · exact absurd hempty hne
    · exact absurd (hopen.symm.trans hclosed) Bool.false_ne_true

theorem Wake.poll (h : Wake s) (hwriter : s.writer = .awaiting) :
    Wake { s with
      notify := s.notify.poll.1, writer := if s.notify.poll.2 then .idle else .awaiting } := by
  have hpoll := Notify.poll_snd s.notify
  cases hcompleted : s.notify.poll.2 with
  | true => exact wake_of_busy (by simp) (by simp)
  | false =>
      rw [hcompleted] at hpoll
      -- nothing had woken the writer, so a call that will is under way
      have hnot : ¬ s.notify.ready = true := by
        rw [← hpoll]
        exact Bool.false_ne_true
      refine ⟨fun _ => ?_, fun _ hne => ?_, fun _ hclosed => ?_⟩
      · exact (Notify.isSome_poll hcompleted).trans (h.created (.inr hwriter))
      · exact .inr ((h.entries hwriter hne).resolve_left hnot)
      · exact .inr ((h.closed hwriter hclosed).resolve_left hnot)

theorem Wake.step (h : Wake s) (hstep : s.step action = some s') : Wake s' := by
  cases stepped_of_step hstep with
  | call call => exact h.call call
  | notifyOne => exact h.notifyOne
  | close => exact ⟨h.created, h.entries, fun _ _ => .inr (Nat.succ_pos _)⟩
  | notifyWaiters => exact h.notifyWaiters
  | notified hwriter => exact ⟨fun _ => rfl, by simp, by simp⟩
  | check hwriter => exact h.check hwriter
  | poll hwriter => exact h.poll hwriter
  | send hwriter => exact wake_of_busy (by simp) (by simp)
  | sent hwriter outcome =>
      cases outcome <;> exact wake_of_busy (by simp [sentStep]) (by simp [sentStep])
  | failPending hwriter => exact wake_of_busy (by simp [failStep]) (by simp [failStep])

/-! ## The transport gets what was dequeued -/

/-- What the writer has dequeued and not yet handed on. -/
def unsent (s : DuplexRun) : List OutboundMessage :=
  match s.writer with
  | .taken message => [message]
  | _ => []

structure Sends (s : DuplexRun) : Prop where
  order : s.dequeued = s.handed ++ s.unsent
  /-- only the last send may have failed -/
  earlier : ∀ sent ∈ s.finished.dropLast, sent.2 = .written
  halted : s.writer ≠ .failing → s.writer ≠ .stopped true → ∀ sent ∈ s.finished, sent.2 = .written

theorem sends_new (capacity : Nat) : Sends (new capacity) :=
  ⟨rfl, by simp [new], by simp [new]⟩

/-- A step of another task, or of the writer outside a send. -/
theorem Sends.frame (h : Sends s) (hdequeued : s'.dequeued = s.dequeued)
    (hfinished : s'.finished = s.finished) (hhanded : s'.handed = s.handed)
    (hunsent : s'.unsent = s.unsent)
    (hrunning : s'.writer ≠ .failing → s'.writer ≠ .stopped true →
      s.writer ≠ .failing ∧ s.writer ≠ .stopped true) : Sends s' where
  order := by rw [hdequeued, hhanded, hunsent, h.order]
  earlier := hfinished ▸ h.earlier
  halted := fun hfailing hstopped => hfinished ▸ h.halted (hrunning hfailing hstopped).1
    (hrunning hfailing hstopped).2

theorem Sends.check (h : Sends s) (hwriter : s.writer = .checking) : Sends s.checkStep := by
  have hhanded : s.handed = s.finished.map Prod.fst := by simp [handed, hwriter]
  have hunsent : s.unsent = [] := by simp [unsent, hwriter]
  have hwritten := h.halted (by simp [hwriter]) (by simp [hwriter])
  obtain ⟨item, -, hcase⟩ | ⟨-, ⟨-, hcase⟩ | ⟨-, hcase⟩⟩ := checkStep_cases s
  · rw [hcase]
    refine ⟨?_, h.earlier, fun _ _ => hwritten⟩
    have horder := h.order
    rw [hhanded, hunsent, List.append_nil] at horder
    simp [handed, unsent, horder]
  · rw [hcase]
    exact h.frame rfl rfl (by simp [handed, hwriter]) (by simp [unsent, hwriter])
      (fun _ _ => by simp [hwriter])
  · rw [hcase]
    exact h.frame rfl rfl (by simp [handed, hwriter]) (by simp [unsent, hwriter])
      (fun _ _ => by simp [hwriter])

theorem Sends.sent (h : Sends s) {message : OutboundMessage} (hwriter : s.writer = .sending message)
    (outcome : SendOutcome) : Sends (s.sentStep message outcome) := by
  have hwritten := h.halted (by simp [hwriter]) (by simp [hwriter])
  refine ⟨?_, ?_, ?_⟩
  · have horder : s.dequeued = s.finished.map Prod.fst ++ [message] := by
      simpa [handed, unsent, hwriter] using h.order
    cases outcome <;> simp [sentStep, handed, unsent, horder]
  · rw [show (s.sentStep message outcome).finished = s.finished ++ [(message, outcome)] from rfl,
      List.dropLast_concat]
    exact hwritten
  · cases outcome with
    | written =>
        intro _ _ sent hsent
        obtain hsent | hsent := List.mem_append.mp hsent
        · exact hwritten sent hsent
        · rw [List.mem_singleton.mp hsent]
    | failed => exact fun hfailing => absurd rfl hfailing
    | timedOut => exact fun hfailing => absurd rfl hfailing

theorem Sends.call (h : Sends s) (call : DuplexCall) : Sends (s.callStep call) := by
  obtain ⟨queue, ⟨error, -, hcase⟩ | ⟨result, notifying, -, -, -, -, hcase⟩⟩ :=
    callStep_cases s call
  · rw [hcase]
    exact h.frame rfl rfl rfl rfl And.intro
  · rw [hcase]
    exact h.frame rfl rfl rfl rfl And.intro

theorem Sends.step (h : Sends s) (hstep : s.step action = some s') : Sends s' := by
  cases stepped_of_step hstep with
  | call call => exact h.call call
  | notifyOne => exact h.frame rfl rfl rfl rfl And.intro
  | close => exact h.frame rfl rfl rfl rfl And.intro
  | notifyWaiters => exact h.frame rfl rfl rfl rfl And.intro
  | notified hwriter =>
      exact h.frame rfl rfl (by simp [handed, hwriter]) (by simp [unsent, hwriter])
        (fun _ _ => by simp [hwriter])
  | check hwriter => exact h.check hwriter
  | poll hwriter =>
      cases s.notify.poll.2 <;>
        exact h.frame rfl rfl (by simp [handed, hwriter]) (by simp [unsent, hwriter])
          (fun _ _ => by simp [hwriter])
  | send hwriter =>
      refine ⟨?_, h.earlier, fun _ _ => h.halted (by simp [hwriter]) (by simp [hwriter])⟩
      simpa [handed, unsent, hwriter] using h.order
  | sent hwriter outcome => exact h.sent hwriter outcome
  | failPending hwriter =>
      refine ⟨?_, h.earlier, fun _ hstopped => absurd rfl hstopped⟩
      simpa [failStep, handed, unsent, hwriter] using h.order

/-! ## Every completion is resolved -/

structure Completions (s : DuplexRun) : Prop where
  pending : ∀ message ∈ s.queue.pendingMessages, message ∈ s.accepted
  held : ∀ message, s.writer.message = some message → message ∈ s.accepted
  finished : ∀ sent ∈ s.finished, sent.1 ∈ s.accepted
  senders : ∀ message ∈ s.accepted, ∀ id, message.completion = some id → id < s.senders
  distinct : (s.accepted.filterMap OutboundMessage.completion).Nodup
  success : ∀ id, (id, true) ∈ s.resolved →
    ∃ message, (message, .written) ∈ s.finished ∧ message.completion = some id
  accounted : ∀ message ∈ s.accepted, ∀ id, message.completion = some id →
    .reliable message ∈ s.queue.entries ∨ s.writer.message = some message ∨
      ∃ ok, (id, ok) ∈ s.resolved
  stopped : s.writer = .stopped true → s.queue.closed = true ∧ s.queue.entries = []

theorem completions_new (capacity : Nat) : Completions (new capacity) where
  pending := fun _ h => nomatch h
  held := fun _ h => nomatch h
  finished := fun _ h => nomatch h
  senders := fun _ h => nomatch h
  distinct := List.nodup_nil
  success := fun _ h => nomatch h
  accounted := fun _ h => nomatch h
  stopped := fun h => nomatch h

/-- A step that changes neither the messages of the queue nor the writer's. -/
theorem Completions.frame (h : Completions s) (hqueue : s'.queue.entries = s.queue.entries)
    (hlatest : s'.queue.latest = s.queue.latest)
    (hclosed : s.queue.closed = true → s'.queue.closed = true)
    (hwriter : s'.writer.message = s.writer.message)
    (hstopped : s'.writer = .stopped true → s.writer = .stopped true)
    (hsenders : s'.senders = s.senders) (haccepted : s'.accepted = s.accepted)
    (hfinished : s'.finished = s.finished) (hresolved : s'.resolved = s.resolved) :
    Completions s' where
  pending := by
    rw [haccepted, OutboundState.pendingMessages, hqueue, hlatest]
    exact h.pending
  held := by
    rw [haccepted, hwriter]
    exact h.held
  finished := by
    rw [haccepted, hfinished]
    exact h.finished
  senders := by
    rw [haccepted, hsenders]
    exact h.senders
  distinct := by
    rw [haccepted]
    exact h.distinct
  success := by
    rw [hresolved, hfinished]
    exact h.success
  accounted := by
    rw [haccepted, hqueue, hwriter, hresolved]
    exact h.accounted
  stopped := by
    intro hstop
    obtain ⟨hclosed', hempty⟩ := h.stopped (hstopped hstop)
    exact ⟨hclosed hclosed', hqueue.trans hempty⟩

theorem Completions.call (h : Completions s) (call : DuplexCall) :
    Completions (s.callStep call) := by
  obtain ⟨queue, ⟨error, happlied, hcase⟩ |
    ⟨result, notifying, -, hopen, happlied, hreliable, hcase⟩⟩ := callStep_cases s call
  · rw [hcase]
    refine ⟨?_, h.held, h.finished, ?_, h.distinct, h.success, ?_, ?_⟩
    · intro message hmessage
      obtain hold | ⟨haccepted, -⟩ := happlied.pending message hmessage
      · exact h.pending message hold
      · obtain haccepted | haccepted := haccepted <;> cases haccepted
    · intro message hmessage id hid
      exact Nat.lt_succ_of_lt (h.senders message hmessage id hid)
    · intro message hmessage id hid
      exact (h.accounted message hmessage id hid).imp_left (happlied.reliable message)
    · intro hstopped
      obtain ⟨hclosed, hempty⟩ := h.stopped hstopped
      refine ⟨happlied.closed.trans hclosed, ?_⟩
      by_contra hne
      exact (happlied.grows hne).elim (fun h => h hempty) nofun
  · rw [hcase]
    have hnew : ∀ message ∈ s.accepted ++ [call.message s.senders],
        message ∈ s.accepted ∨ message = call.message s.senders :=
      fun message hmessage => (List.mem_append.mp hmessage).imp_right List.mem_singleton.mp
    refine ⟨?_, ?_, ?_, ?_, ?_, h.success, ?_, ?_⟩
    · intro message hmessage
      obtain hold | ⟨-, rfl⟩ := happlied.pending message hmessage
      · exact List.mem_append_left _ (h.pending message hold)
      · exact List.mem_append_right _ List.mem_cons_self
    · exact fun message hmessage => List.mem_append_left _ (h.held message hmessage)
    · exact fun sent hsent => List.mem_append_left _ (h.finished sent hsent)
    · intro message hmessage id hid
      obtain hold | rfl := hnew message hmessage
      · exact Nat.lt_succ_of_lt (h.senders message hold id hid)
      · rw [(hreliable id hid).1]
        exact Nat.lt_succ_self _
    · -- the sender of this call is a new one
      rw [List.filterMap_append, List.nodup_append]
      refine ⟨h.distinct, ?_, ?_⟩
      · cases hcompletion : (call.message s.senders).completion <;> simp [hcompletion]
      intro id hid id' hid' heq
      subst heq
      obtain ⟨message, hmessage, hcompletion⟩ := List.mem_filterMap.mp hid
      obtain ⟨message', hmessage', hcompletion'⟩ := List.mem_filterMap.mp hid'
      rw [List.mem_singleton.mp hmessage'] at hcompletion'
      have hlt := h.senders message hmessage id hcompletion
      rw [(hreliable id hcompletion').1] at hlt
      exact lt_irrefl _ hlt
    · intro message hmessage id hid
      obtain hold | rfl := hnew message hmessage
      · exact (h.accounted message hold id hid).imp_left (happlied.reliable message)
      · exact .inl (hreliable id hid).2
    · intro hstopped
      exact absurd (hopen.symm.trans (h.stopped hstopped).1) Bool.false_ne_true

/-- A message that leaves the queue is with the writer. -/
theorem Completions.check (h : Completions s) (hwriter : s.writer = .checking) :
    Completions s.checkStep := by
  have hpopped := OutboundState.popFront_popped s.queue.latest s.queue.entries
  have hpending : ∀ message ∈ s.queue.dequeue.1.pendingMessages, message ∈ s.accepted :=
    fun message hmessage => h.pending message (OutboundState.pendingMessages_dequeue hmessage)
  have haccounted : ∀ message ∈ s.accepted, ∀ id, message.completion = some id →
      s.queue.dequeue.2 = some (.reliable, message) ∨
        .reliable message ∈ s.queue.dequeue.1.entries ∨ ∃ ok, (id, ok) ∈ s.resolved := by
    intro message hmessage id hid
    obtain hreliable | hheld | hresolved := h.accounted message hmessage id hid
    · exact (hpopped.reliable message hreliable).imp_right .inl
    · rw [hwriter] at hheld
      cases hheld
    · exact .inr (.inr hresolved)
  obtain ⟨item, hitem, hcase⟩ | ⟨hnone, ⟨-, hcase⟩ | ⟨-, hcase⟩⟩ := checkStep_cases s
  · rw [hcase]
    refine ⟨hpending, ?_, h.finished, h.senders, h.distinct, h.success, ?_, nofun⟩
    · rintro message ⟨⟩
      exact h.pending _ (OutboundState.mem_pendingMessages_of_dequeue hitem)
    · intro message hmessage id hid
      obtain hfirst | hkept | hresolved := haccounted message hmessage id hid
      · rw [hitem] at hfirst
        cases hfirst
        exact .inr (.inl rfl)
      · exact .inl hkept
      · exact .inr (.inr hresolved)
  · rw [hcase]
    refine ⟨hpending, nofun, h.finished, h.senders, h.distinct, h.success, ?_, nofun⟩
    intro message hmessage id hid
    obtain hfirst | hrest := haccounted message hmessage id hid
    · rw [hnone] at hfirst
      cases hfirst
    · exact hrest.imp_right .inr
  · rw [hcase]
    refine ⟨hpending, nofun, h.finished, h.senders, h.distinct, h.success, ?_, nofun⟩
    intro message hmessage id hid
    obtain hfirst | hrest := haccounted message hmessage id hid
    · rw [hnone] at hfirst
      cases hfirst
    · exact hrest.imp_right .inr

theorem mem_resolve {ok : Bool} {message : OutboundMessage} {id : Nat} {ok' : Bool} :
    (id, ok') ∈ resolve ok message ↔ message.completion = some id ∧ ok' = ok := by
  unfold resolve
  cases message.completion with
  | none => simp
  | some sender => simp [eq_comm]

theorem Completions.sent (h : Completions s) {message : OutboundMessage}
    (hwriter : s.writer = .sending message) (outcome : SendOutcome) :
    Completions (s.sentStep message outcome) := by
  have hheld : (s.sentStep message outcome).writer.message = none := by
    cases outcome <;> rfl
  refine ⟨h.pending, ?_, ?_, h.senders, h.distinct, ?_, ?_, ?_⟩
  · rw [hheld]
    nofun
  · intro sent hsent
    obtain hsent | hsent := List.mem_append.mp hsent
    · exact h.finished sent hsent
    · rw [List.mem_singleton.mp hsent]
      exact h.held message (by rw [hwriter]; rfl)
  · intro id hid
    obtain hold | hnew := List.mem_append.mp hid
    · obtain ⟨m, hm, hcompletion⟩ := h.success id hold
      exact ⟨m, List.mem_append_left _ hm, hcompletion⟩
    · obtain ⟨hcompletion, hok⟩ := mem_resolve.mp hnew
      have hwritten := of_decide_eq_true hok.symm
      subst hwritten
      exact ⟨message, List.mem_append_right _ List.mem_cons_self, hcompletion⟩
  · intro m hm id hid
    obtain hreliable | hheld' | ⟨ok, hok⟩ := h.accounted m hm id hid
    · exact .inl hreliable
    · rw [hwriter] at hheld'
      cases hheld'
      exact .inr (.inr ⟨_, List.mem_append_right _ (mem_resolve.mpr ⟨hid, rfl⟩)⟩)
    · exact .inr (.inr ⟨ok, List.mem_append_left _ hok⟩)
  · intro hstopped
    cases outcome <;> cases hstopped

/-- After a failure the queue is closed and what was in it is resolved, in one step. -/
theorem Completions.fail (h : Completions s) (hwriter : s.writer = .failing) :
    Completions s.failStep := by
  refine ⟨nofun, nofun, h.finished, h.senders, h.distinct, ?_, ?_, fun _ => ⟨rfl, rfl⟩⟩
  · intro id hid
    obtain hold | hnew := List.mem_append.mp hid
    · exact h.success id hold
    · obtain ⟨m, -, hm⟩ := List.mem_flatMap.mp hnew
      cases (mem_resolve.mp hm).2
  · intro m hm id hid
    refine .inr (.inr ?_)
    obtain hreliable | hheld | ⟨ok, hok⟩ := h.accounted m hm id hid
    · refine ⟨false, List.mem_append_right _ (List.mem_flatMap.mpr ⟨m, ?_, ?_⟩)⟩
      · exact OutboundState.mem_pendingMessages.mpr (.inl ⟨_, hreliable, rfl⟩)
      · exact mem_resolve.mpr ⟨hid, rfl⟩
    · rw [hwriter] at hheld
      cases hheld
    · exact ⟨ok, List.mem_append_left _ hok⟩

theorem Completions.step (h : Completions s) (hstep : s.step action = some s') :
    Completions s' := by
  cases stepped_of_step hstep with
  | call call => exact h.call call
  | notifyOne => exact h.frame rfl rfl id rfl id rfl rfl rfl rfl
  | close => exact h.frame rfl rfl (fun _ => rfl) rfl id rfl rfl rfl rfl
  | notifyWaiters => exact h.frame rfl rfl id rfl id rfl rfl rfl rfl
  | notified hwriter => exact h.frame rfl rfl id (by rw [hwriter]; rfl) nofun rfl rfl rfl rfl
  | check hwriter => exact h.check hwriter
  | poll hwriter =>
      cases s.notify.poll.2 <;>
        exact h.frame rfl rfl id (by rw [hwriter]; rfl) nofun rfl rfl rfl rfl
  | send hwriter => exact h.frame rfl rfl id (by rw [hwriter]; rfl) nofun rfl rfl rfl rfl
  | sent hwriter outcome => exact h.sent hwriter outcome
  | failPending hwriter => exact h.fail hwriter

/-! ## Every interleaving -/

/-- What holds in every state of every interleaving. -/
structure Duplex (s : DuplexRun) : Prop where
  /-- a writer that waits although there is something to do will be woken by a call that has
  changed the queue and has yet to notify -/
  wakeup : s.Parked → (s.queue.entries ≠ [] → 0 < s.notifying) ∧
    (s.queue.closed = true → 0 < s.closing)
  /-- the transport gets the messages in the order in which they were dequeued -/
  order : s.dequeued = s.handed ++ s.unsent
  /-- nothing is dequeued or handed on after a send that did not succeed -/
  last : ∀ before message outcome after, s.finished = before ++ (message, outcome) :: after →
    outcome ≠ .written → after = [] ∧ s.writer.message = none ∧
      (s.writer = .failing ∨ s.writer = .stopped true)
  /-- the calls that wait for a completion have different ones -/
  distinct : (s.accepted.filterMap OutboundMessage.completion).Nodup
  /-- a completion is `Ok` only for a message that was written -/
  success : ∀ message ∈ s.accepted, ∀ id, message.completion = some id →
    (id, true) ∈ s.resolved → (message, .written) ∈ s.finished
  /-- after a failure every completion is resolved -/
  resolved : s.writer = .stopped true → ∀ message ∈ s.accepted, ∀ id,
    message.completion = some id → ∃ ok, (id, ok) ∈ s.resolved
  /-- after a failure every call is refused -/
  refused : s.writer = .stopped true → ∀ call sender,
    (DuplexCall.apply s.queue (DuplexCall.message sender call) call).2 = .refused .closed

theorem Wake.wakeup (h : Wake s) (hparked : s.Parked) :
    (s.queue.entries ≠ [] → 0 < s.notifying) ∧ (s.queue.closed = true → 0 < s.closing) := by
  obtain ⟨hawait, hready⟩ := hparked
  have hnot : ¬ s.notify.ready = true := by
    rw [hready]
    exact Bool.false_ne_true
  exact ⟨fun hne => (h.entries hawait hne).resolve_left hnot,
    fun hclosed => (h.closed hawait hclosed).resolve_left hnot⟩

theorem Sends.last (h : Sends s) {before after : List (OutboundMessage × SendOutcome)}
    {message : OutboundMessage} {outcome : SendOutcome}
    (hfinished : s.finished = before ++ (message, outcome) :: after)
    (hfailed : outcome ≠ .written) :
    after = [] ∧ s.writer.message = none ∧ (s.writer = .failing ∨ s.writer = .stopped true) := by
  have hmem : (message, outcome) ∈ s.finished := by
    rw [hfinished]
    exact List.mem_append_right _ List.mem_cons_self
  have hhalted : s.writer = .failing ∨ s.writer = .stopped true := by
    by_contra hrunning
    rw [not_or] at hrunning
    exact hfailed (h.halted hrunning.1 hrunning.2 _ hmem)
  refine ⟨?_, ?_, hhalted⟩
  · by_contra hne
    -- otherwise the failed send is not the last one
    have hearlier := h.earlier
    rw [hfinished, List.dropLast_append_of_ne_nil (List.cons_ne_nil _ _),
      List.dropLast_cons_of_ne_nil hne] at hearlier
    exact hfailed (hearlier _ (List.mem_append_right _ List.mem_cons_self))
  · obtain hwriter | hwriter := hhalted <;> rw [hwriter] <;> rfl

theorem eq_of_completion {messages : List OutboundMessage}
    (h : (messages.filterMap OutboundMessage.completion).Nodup) {a b : OutboundMessage} {id : Nat}
    (ha : a ∈ messages) (hb : b ∈ messages) (hcompletion : a.completion = some id)
    (hcompletion' : b.completion = some id) : a = b := by
  obtain ⟨front, rest, rfl⟩ := List.append_of_mem ha
  rw [List.filterMap_append, List.filterMap_cons_some hcompletion] at h
  have hmem : ∀ {l : List OutboundMessage}, b ∈ l → id ∈ l.filterMap OutboundMessage.completion :=
    fun hl => List.mem_filterMap.mpr ⟨b, hl, hcompletion'⟩
  rw [List.nodup_append] at h
  obtain hb | hb := List.mem_append.mp hb
  · exact absurd rfl (h.2.2 id (hmem hb) id List.mem_cons_self)
  · obtain rfl | hb := List.mem_cons.mp hb
    · rfl
    · exact absurd (hmem hb) (List.nodup_cons.mp h.2.1).1

theorem Completions.written (h : Completions s) {message : OutboundMessage}
    (hmessage : message ∈ s.accepted) {id : Nat} (hid : message.completion = some id)
    (hok : (id, true) ∈ s.resolved) : (message, .written) ∈ s.finished := by
  obtain ⟨message', hwritten, hid'⟩ := h.success id hok
  rw [eq_of_completion h.distinct hmessage (h.finished _ hwritten) hid hid']
  exact hwritten

theorem Completions.allResolved (h : Completions s) (hstopped : s.writer = .stopped true)
    {message : OutboundMessage} (hmessage : message ∈ s.accepted) {id : Nat}
    (hid : message.completion = some id) : ∃ ok, (id, ok) ∈ s.resolved := by
  obtain hreliable | hheld | hresolved := h.accounted message hmessage id hid
  · rw [(h.stopped hstopped).2] at hreliable
    cases hreliable
  · rw [hstopped] at hheld
    cases hheld
  · exact hresolved

/-- Every interleaving of calls, closes and steps of the writer, whatever becomes of each
send. -/
theorem duplex_of_reach (h : (system capacity).Reach (fun _ _ => True) s) : Duplex s := by
  have hwake : Wake s := h.invariant (wake_new capacity) (fun _ _ _ hs _ hstep => hs.step hstep)
  have hsends : Sends s := h.invariant (sends_new capacity) (fun _ _ _ hs _ hstep => hs.step hstep)
  have hcompletions : Completions s :=
    h.invariant (completions_new capacity) (fun _ _ _ hs _ hstep => hs.step hstep)
  exact ⟨hwake.wakeup, hsends.order, fun _ _ _ _ => hsends.last, hcompletions.distinct,
    fun _ hmessage _ hid => hcompletions.written hmessage hid,
    fun hstopped _ hmessage _ hid => hcompletions.allResolved hstopped hmessage hid,
    fun hstopped call _ => OutboundState.refused_of_closed call _ (hcompletions.stopped hstopped).1⟩

/-- The writer waits, is woken by a message it then fails to send, and fails a second one. -/
def failedActions : List DuplexAction :=
  [.notified, .check, .poll, .call (.enqueueAndWait [1] "first"), .notifyOne, .poll, .notified,
    .check, .send, .call (.enqueueAndWait [2] "second"), .sent .timedOut, .failPending, .notifyOne]

def failedRun : DuplexRun := ((system 4).run failedActions).getD (new 4)

theorem duplex_failedRun :
    (system 4).run failedActions = some failedRun ∧ failedRun.writer = .stopped true ∧
      failedRun.resolved = [(0, false), (1, false)] ∧ Duplex failedRun := by
  have hrun : (system 4).run failedActions = some failedRun := by decide +kernel
  exact ⟨hrun, by decide +kernel, by decide +kernel,
    duplex_of_reach (TSys.reach_of_any_run failedActions hrun)⟩

end DuplexRun

end HbbCommon.Outbound
