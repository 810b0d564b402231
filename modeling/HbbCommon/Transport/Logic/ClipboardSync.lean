import HbbCommon.Transport.Logic.FileCodec

/-!
# Clipboard synchronisation

A run of the three calls of `ClipboardState`, with arbitrary bytes received. The number kept
for an origin is that of the last text delivered for it, and the number of the next local
text is above all that were used. Two peers that pass on each other's payloads, in any order
and as often as they like, are two such runs: a payload carries the origin of the peer that
produced it, and nothing of the local origin is delivered.
-/

namespace HbbCommon.Transport

open HbbCommon.Base

inductive ClipboardCall
  | prepareLocalText (text : String)
  | receive (payload : Bytes)
  | resetRemoteState
  deriving DecidableEq

structure ClipboardRun where
  state : ClipboardState
  /-- the local texts and their payloads, oldest first -/
  produced : List (ClipboardText × Bytes)
  /-- the texts delivered since the last reset -/
  delivered : List ClipboardText
  /-- all texts delivered -/
  received : List ClipboardText
  deriving DecidableEq

namespace ClipboardRun

def new (state : ClipboardState) : ClipboardRun :=
  { state := state, produced := [], delivered := [], received := [] }

def step (s : ClipboardRun) : ClipboardCall → Option ClipboardRun
  | .prepareLocalText text =>
      match s.state.prepareLocalText text with
      | (state, .ok payload) =>
          let clipboard : ClipboardText :=
            { originId := s.state.localOriginId, changeSequence := s.state.nextLocalSequence
              text := text }
          some { s with state := state, produced := s.produced ++ [(clipboard, payload)] }
      | (state, .error _) => some { s with state := state }
  | .receive payload =>
      (s.state.receive payload).map (fun
        | (state, .ok (some text)) =>
            { s with
              state := state, delivered := s.delivered ++ [text]
              received := s.received ++ [text] }
        | (state, .ok none) => { s with state := state }
        | (state, .error _) => { s with state := state })
  | .resetRemoteState => some { s with state := s.state.resetRemoteState, delivered := [] }

def system (state : ClipboardState) : TSys ClipboardRun ClipboardCall where
  init := new state
  step := step

end ClipboardRun

/-- The payload is the change on the wire. -/
def ClipboardText.WrittenAs (clipboard : ClipboardText) (payload : Bytes) : Prop :=
  ∃ maxBytes, (decodeClipboardText payload maxBytes).run = some (.ok clipboard)

/-- A payload says where its text comes from. -/
theorem ClipboardText.WrittenAs.originId_eq {clipboard clipboard' : ClipboardText}
    {payload : Bytes} (h : clipboard.WrittenAs payload) (h' : clipboard'.WrittenAs payload) :
    clipboard.originId = clipboard'.originId := by
  obtain ⟨_, hdecode⟩ := h
  obtain ⟨_, hdecode'⟩ := h'
  obtain ⟨-, -, hpayload⟩ := encodeClipboardText_eq_ok_iff.mp
    (decodeClipboardText_eq_ok_iff.mp hdecode)
  obtain ⟨-, -, hpayload'⟩ := encodeClipboardText_eq_ok_iff.mp
    (decodeClipboardText_eq_ok_iff.mp hdecode')
  rw [hpayload] at hpayload'
  simp only [clipboardHeader, List.flatten_cons, List.append_assoc] at hpayload'
  exact (FixedBytes.append_inj hpayload').1

namespace ClipboardState

/-! ## One call -/

/-- What a call for a local text does: nothing, or it uses up the next number. -/
inductive Prepares (s : ClipboardState) (text : String) :
    ClipboardState × Except ClipboardError Bytes → Prop
  | failed (error : ClipboardError) : Prepares s text (s, .error error)
  | produced {payload : Bytes} (permitted : s.permission.canSend = true)
      (written : ClipboardText.WrittenAs
        { originId := s.localOriginId, changeSequence := s.nextLocalSequence, text := text }
        payload)
      (fits : s.nextLocalSequence.toNat + 1 < 2 ^ 64) :
      Prepares s text ({ s with nextLocalSequence := s.nextLocalSequence + 1 }, .ok payload)

theorem prepareLocalText_prepares (s : ClipboardState) (text : String) :
    s.Prepares text (s.prepareLocalText text) := by
  unfold prepareLocalText
  split
  · rename_i hpermitted
    dsimp only
    split
    · exact .failed _
    · rename_i payload hencode
      split
      · exact .produced hpermitted ⟨s.maxBytes, decodeClipboardText_eq_ok_iff.mpr hencode⟩ ‹_›
      · exact .failed _
  · exact .failed _

/-- What receiving a payload does: nothing, or it delivers a text of another origin, newer
than the last of that origin. -/
inductive Receives (s : ClipboardState) :
    ClipboardState × Except ClipboardError (Option ClipboardText) → Prop
  | failed (error : ClipboardError) : Receives s (s, .error error)
  | ignored : Receives s (s, .ok none)
  | delivered {clipboard : ClipboardText} (permitted : s.permission.canReceive = true)
      (foreign : clipboard.originId ≠ s.localOriginId)
      (newer : ∀ last ∈ s.remoteSequences.get? clipboard.originId, last < clipboard.changeSequence)
      (room : s.remoteSequences.get? clipboard.originId = none →
        s.remoteSequences.size < maxTrackedOrigins) :
      Receives s
        ({ s with remoteSequences :=
            s.remoteSequences.insert clipboard.originId clipboard.changeSequence },
          .ok (some clipboard))

theorem accept_receives (s : ClipboardState) (hpermitted : s.permission.canReceive = true)
    (clipboard : ClipboardText) : s.Receives (s.accept clipboard) := by
  unfold accept
  dsimp only
  split
  · exact .ignored
  · rename_i hforeign
    split
    · rename_i last hlast
      split
      · exact .ignored
      · rename_i hnewer
        refine .delivered hpermitted hforeign ?_ ?_
        · rw [hlast]
          rintro _ ⟨⟩
          exact UInt64.not_le.mp hnewer
        · rw [hlast]
          exact nofun
    · rename_i hnew
      split
      · exact .failed _
      · rename_i hroom
        refine .delivered hpermitted hforeign ?_ (fun _ => Nat.not_le.mp hroom)
        rw [hnew]
        exact nofun

theorem receive_receives {s : ClipboardState} {payload : Bytes}
    {result : ClipboardState × Except ClipboardError (Option ClipboardText)}
    (h : s.receive payload = some result) : s.Receives result := by
  unfold receive at h
  split at h
  · rename_i hpermitted
    obtain ⟨decoded, -, rfl⟩ := Option.map_eq_some_iff.mp h
    cases decoded with
    | error error => exact .failed _
    | ok clipboard => exact s.accept_receives hpermitted clipboard
  · cases h
    exact .failed _

theorem decodeClipboardText_defined (payload : Bytes) (maxBytes : Nat) :
    Defined (decodeClipboardText payload maxBytes) := by
  unfold decodeClipboardText
  refine .ite (defined_throw _) (fun hlong => ?_)
  have hlong : 32 ≤ payload.length := Nat.not_lt.mp hlong
  have hread : ∀ {α : Type} (f : Nat → α) (w offset : Nat), offset + w ≤ 32 →
      Defined (liftM ((readBe w payload offset).map f) : ExceptT ClipboardError Option α) :=
    fun f _ _ h => defined_lift (map_readBe_isSome f (by omega))
  refine (defined_lift (readFixed_isSome (by omega))).bind (fun _ _ => ?_)
  refine (hread _ 8 16 (by decide)).bind (fun _ _ => (defined_except _).bind (fun _ _ => ?_))
  refine (hread _ 1 24 (by decide)).bind (fun _ _ => .ite (defined_throw _) (fun _ => ?_))
  refine (hread _ 1 25 (by decide)).bind (fun _ _ => ?_)
  refine (hread _ 2 26 (by decide)).bind (fun _ _ => .ite (defined_throw _) (fun _ => ?_))
  refine (hread _ 4 28 (by decide)).bind (fun _ _ => .ite (defined_throw _) (fun _ => ?_))
  exact (defined_except _).bind (fun _ _ => defined_pure _)

/-- No bytes make `receive` read past the payload. -/
theorem receive_defined (s : ClipboardState) (payload : Bytes) :
    (s.receive payload).isSome = true := by
  unfold receive
  split
  · rw [Option.isSome_map]
    exact decodeClipboardText_defined payload s.maxBytes
  · rfl

end ClipboardState

namespace ClipboardRun

/-! ## A run -/

/-- What is delivered and what is produced in a run of one peer. -/
structure Safe (permission : ClipboardPermission) (localOriginId : FixedBytes 16)
    (s : ClipboardRun) : Prop where
  /-- of two texts of one origin delivered between resets the later has the larger number -/
  increasing : s.delivered.Pairwise (fun a b =>
    a.originId = b.originId → a.changeSequence < b.changeSequence)
  foreign : ∀ clipboard ∈ s.received, clipboard.originId ≠ localOriginId
  tracked : s.state.remoteSequences.size ≤ maxTrackedOrigins
  receives : permission.canReceive = false → s.received = []
  sends : permission.canSend = false → s.produced = []
  written : ∀ entry ∈ s.produced, entry.1.originId = localOriginId ∧ entry.1.WrittenAs entry.2
  numbered : s.produced.Pairwise (fun a b => a.1.changeSequence < b.1.changeSequence)

/-- A safe run together with what the numbers of the state stand for. -/
structure Inv (permission : ClipboardPermission) (localOriginId : FixedBytes 16)
    (s : ClipboardRun) : Prop extends Safe permission localOriginId s where
  permission_eq : s.state.permission = permission
  origin_eq : s.state.localOriginId = localOriginId
  last : ∀ clipboard ∈ s.delivered, ∃ last,
    s.state.remoteSequences.get? clipboard.originId = some last ∧ clipboard.changeSequence ≤ last
  next : ∀ entry ∈ s.produced, entry.1.changeSequence < s.state.nextLocalSequence

variable {permission : ClipboardPermission} {localOriginId : FixedBytes 16} {s s' : ClipboardRun}
  {state : ClipboardState} {maxBytes : Nat}

theorem inv_new (hnew : ClipboardState.new permission localOriginId maxBytes = .ok state) :
    Inv permission localOriginId (new state) := by
  simp only [ClipboardState.new, bind_eq_ok, check_eq_ok, Except.ok.injEq] at hnew
  obtain ⟨_, -, -, rfl⟩ := hnew
  exact
    { increasing := .nil, foreign := nofun, tracked := Nat.zero_le _, receives := fun _ => rfl
      sends := fun _ => rfl, written := nofun, numbered := .nil, permission_eq := rfl
      origin_eq := rfl, last := nofun, next := nofun }

/-- A local text uses up the next number. -/
theorem Inv.prepare (h : Inv permission localOriginId s) (text : String)
    (hstep : s.step (.prepareLocalText text) = some s') : Inv permission localOriginId s' := by
  have hprepares := s.state.prepareLocalText_prepares text
  simp only [step] at hstep
  generalize s.state.prepareLocalText text = result at hprepares hstep
  cases hprepares with
  | failed error =>
      cases hstep
      exact { h with }
  | @produced payload hpermitted hwritten hfits =>
      cases hstep
      have hnext : s.state.nextLocalSequence < s.state.nextLocalSequence + 1 := by
        rw [UInt64.lt_iff_toNat_lt, UInt64.toNat_add]
        simp only [UInt64.reduceToNat]
        omega
      refine { h with sends := ?_, written := ?_, numbered := ?_, next := ?_ }
      · intro hclosed
        rw [h.permission_eq, hclosed] at hpermitted
        cases hpermitted
      · intro entry hentry
        rcases List.mem_append.mp hentry with hentry | hentry
        · exact h.written entry hentry
        · rw [List.mem_singleton.mp hentry]
          exact ⟨h.origin_eq, hwritten⟩
      · rw [List.pairwise_append]
        refine ⟨h.numbered, List.pairwise_singleton _ _, fun a ha b hb => ?_⟩
        rw [List.mem_singleton.mp hb]
        exact h.next a ha
      · intro entry hentry
        rcases List.mem_append.mp hentry with hentry | hentry
        · exact UInt64.lt_trans (h.next entry hentry) hnext
        · rw [List.mem_singleton.mp hentry]
          exact hnext

/-- A delivered text is newer than those of its origin, and is recorded. -/
theorem Inv.receive (h : Inv permission localOriginId s) (payload : Bytes)
    (hstep : s.step (.receive payload) = some s') : Inv permission localOriginId s' := by
  simp only [step] at hstep
  obtain ⟨result, hresult, rfl⟩ := Option.map_eq_some_iff.mp hstep
  cases ClipboardState.receive_receives hresult with
  | failed error => exact { h with }
  | ignored => exact { h with }
  | @delivered clipboard hpermitted hforeign hnewer hroom =>
      have hlater : ∀ text ∈ s.delivered, text.originId = clipboard.originId →
          text.changeSequence < clipboard.changeSequence := by
        intro text htext horigin
        obtain ⟨last, hlast, hle⟩ := h.last text htext
        rw [horigin] at hlast
        exact UInt64.lt_of_le_of_lt hle (hnewer last hlast)
      refine { h with increasing := ?_, foreign := ?_, tracked := ?_, receives := ?_, last := ?_ }
      · rw [List.pairwise_append]
        refine ⟨h.increasing, List.pairwise_singleton _ _, fun a ha b hb => ?_⟩
        rw [List.mem_singleton.mp hb]
        exact hlater a ha
      · intro text htext
        rcases List.mem_append.mp htext with htext | htext
        · exact h.foreign text htext
        · rw [List.mem_singleton.mp htext, ← h.origin_eq]
          exact hforeign
      · -- a new origin is only added below the limit
        cases hget : s.state.remoteSequences.get? clipboard.originId with
        | some last =>
            rw [OrdMap.size_insert_of_some _ hget]
            exact h.tracked
        | none =>
            rw [OrdMap.size_insert_of_none _ hget]
            exact hroom hget
      · intro hclosed
        rw [h.permission_eq, hclosed] at hpermitted
        cases hpermitted
      · intro text htext
        rcases List.mem_append.mp htext with htext | htext
        · by_cases horigin : text.originId = clipboard.originId
          · exact ⟨clipboard.changeSequence, by simp [horigin],
              UInt64.le_of_lt (hlater text htext horigin)⟩
          · obtain ⟨last, hlast, hle⟩ := h.last text htext
            exact ⟨last, by rw [OrdMap.get?_insert, if_neg horigin, hlast], hle⟩
        · rw [List.mem_singleton.mp htext]
          exact ⟨clipboard.changeSequence, by simp, UInt64.le_refl _⟩

theorem Inv.step (h : Inv permission localOriginId s) {call : ClipboardCall}
    (hstep : s.step call = some s') : Inv permission localOriginId s' := by
  cases call with
  | prepareLocalText text => exact h.prepare text hstep
  | receive payload => exact h.receive payload hstep
  | resetRemoteState =>
      cases hstep
      have htracked : (∅ : OrdMap (FixedBytes 16) UInt64).size ≤ maxTrackedOrigins :=
        Nat.zero_le _
      exact { h with increasing := .nil, last := nofun, tracked := htracked }

theorem inv_of_reach (hnew : ClipboardState.new permission localOriginId maxBytes = .ok state)
    (hreach : (system state).Reach (fun _ _ => True) s) : Inv permission localOriginId s :=
  hreach.invariant (inv_new hnew) (fun _ _ _ h _ hstep => h.step hstep)

end ClipboardRun

/-! ## Two peers -/

inductive ClipboardPeer
  | left
  | right
  deriving DecidableEq, Repr

inductive ExchangeAction
  | prepareLocalText (peer : ClipboardPeer) (text : String)
  /-- a payload that one of the peers produced reaches a peer -/
  | deliver (peer : ClipboardPeer) (payload : Bytes)
  | resetRemoteState (peer : ClipboardPeer)
  deriving DecidableEq

/-- The network keeps every payload: it may deliver one late, again, or to its sender. -/
structure ClipboardExchange where
  peer : ClipboardPeer → ClipboardRun

namespace ClipboardExchange

/-- A payload that one of the peers produced. -/
def Sent (s : ClipboardExchange) (payload : Bytes) : Prop :=
  ∃ e, payload ∈ (s.peer e).produced.map Prod.snd

instance (s : ClipboardExchange) (payload : Bytes) : Decidable (s.Sent payload) :=
  haveI := lawfulBEq_bytes
  decidable_of_iff
    (payload ∈ (s.peer .left).produced.map Prod.snd ∨
      payload ∈ (s.peer .right).produced.map Prod.snd)
    ⟨fun h => h.elim (fun h => ⟨.left, h⟩) (fun h => ⟨.right, h⟩), fun ⟨e, h⟩ => by
      cases e
      · exact .inl h
      · exact .inr h⟩

def call (s : ClipboardExchange) (e : ClipboardPeer) (c : ClipboardCall) :
    Option ClipboardExchange :=
  ((s.peer e).step c).map (fun run => { peer := Function.update s.peer e run })

def step (s : ClipboardExchange) : ExchangeAction → Option ClipboardExchange
  | .prepareLocalText e text => s.call e (.prepareLocalText text)
  | .deliver e payload => if s.Sent payload then s.call e (.receive payload) else none
  | .resetRemoteState e => s.call e .resetRemoteState

def system (state : ClipboardPeer → ClipboardState) :
    TSys ClipboardExchange ExchangeAction where
  init := { peer := fun e => .new (state e) }
  step := step

variable {state : ClipboardPeer → ClipboardState} {s : ClipboardExchange}

/-- What a peer does is a run of its own calls. -/
theorem reach_peer (hreach : (system state).Reach (fun _ _ => True) s) (e : ClipboardPeer) :
    (ClipboardRun.system (state e)).Reach (fun _ _ => True) (s.peer e) := by
  refine hreach.invariant (I := fun s =>
    (ClipboardRun.system (state e)).Reach (fun _ _ => True) (s.peer e)) .init ?_
  intro s a t ih _ hstep
  have hcall : ∀ e' c, s.call e' c = some t →
      (ClipboardRun.system (state e)).Reach (fun _ _ => True) (t.peer e) := by
    intro e' c hc
    obtain ⟨run, hrun, rfl⟩ := Option.map_eq_some_iff.mp hc
    by_cases he : e = e'
    · subst he
      simp only [Function.update_self]
      exact ih.step trivial hrun
    · simp only [Function.update_of_ne he]
      exact ih
  cases a with
  | prepareLocalText e' text => exact hcall e' (.prepareLocalText text) hstep
  | resetRemoteState e' => exact hcall e' .resetRemoteState hstep
  | deliver e' payload =>
      have hdeliver : (if s.Sent payload then s.call e' (.receive payload) else none) = some t :=
        hstep
      split at hdeliver
      · exact hcall _ _ hdeliver
      · cases hdeliver

end ClipboardExchange

/-- In every run of one peer what is delivered and produced is safe; a call that fails or
delivers nothing leaves the state alone; and of two peers that exchange their payloads in
any order, none receives a text that one of its own payloads carries. -/
theorem clipboard_sync :
    (∀ permission localOriginId maxBytes state,
      ClipboardState.new permission localOriginId maxBytes = .ok state → ∀ s,
      (ClipboardRun.system state).Reach (fun _ _ => True) s →
        s.Safe permission localOriginId) ∧
    (∀ (s s' : ClipboardState) (text : String) (error : ClipboardError),
      s.prepareLocalText text = (s', .error error) → s' = s) ∧
    (∀ (s s' : ClipboardState) (payload : Bytes), (∃ error, s.receive payload =
      some (s', .error error)) ∨ s.receive payload = some (s', .ok none) → s' = s) ∧
    (∀ (permission : ClipboardPeer → ClipboardPermission) (origin : ClipboardPeer → FixedBytes 16)
      (maxBytes : ClipboardPeer → Nat) (state : ClipboardPeer → ClipboardState),
      (∀ e, ClipboardState.new (permission e) (origin e) (maxBytes e) = .ok (state e)) → ∀ s,
      (ClipboardExchange.system state).Reach (fun _ _ => True) s →
        ∀ e, ∀ clipboard ∈ (s.peer e).received, ∀ entry ∈ (s.peer e).produced,
          ¬ clipboard.WrittenAs entry.2) := by
  refine ⟨?_, ?_, ?_, ?_⟩
  · intro permission localOriginId maxBytes state hnew s hreach
    exact (ClipboardRun.inv_of_reach hnew hreach).toSafe
  · intro s s' text error h
    have hprepares := s.prepareLocalText_prepares text
    rw [h] at hprepares
    cases hprepares
    rfl
  · rintro s s' payload (⟨error, h⟩ | h)
    · cases ClipboardState.receive_receives h
      rfl
    · cases ClipboardState.receive_receives h
      rfl
  · intro permission origin maxBytes state hnew s hreach e clipboard hclipboard entry hentry h
    have hinv := ClipboardRun.inv_of_reach (hnew e) (ClipboardExchange.reach_peer hreach e)
    obtain ⟨horigin, hwritten⟩ := hinv.written entry hentry
    exact hinv.foreign clipboard hclipboard ((h.originId_eq hwritten).trans horigin)

def sampleClipboard (e : ClipboardPeer) : ClipboardState :=
  { permission := .bidirectional, localOriginId := .replicate 16 (if e = .left then 1 else 2)
    nextLocalSequence := 1, remoteSequences := ∅, maxBytes := 64 }

/-- The payload of the left peer's first text. -/
def samplePayload : Bytes :=
  (clipboardHeader (.replicate 16 1) 1 2).flatten ++ utf8Bytes "hi"

/-- A payload that arrives twice and then comes back. -/
def sampleExchange : List ExchangeAction :=
  [.prepareLocalText .left "hi", .deliver .right samplePayload, .deliver .right samplePayload,
    .deliver .left samplePayload]

theorem clipboard_sync_duplicate :
    ∃ s, (ClipboardExchange.system sampleClipboard).run sampleExchange = some s ∧
      (s.peer .right).received.length = 1 ∧ (s.peer .left).received = [] ∧
      (s.peer .right).Safe .bidirectional (.replicate 16 2) := by
  have hrun : ((ClipboardExchange.system sampleClipboard).run sampleExchange).map (fun s =>
      decide ((s.peer .right).received.length = 1 ∧ (s.peer .left).received = [])) =
      some true := by
    decide +kernel
  obtain ⟨s, hs, hreceived⟩ := Option.map_eq_some_iff.mp hrun
  obtain ⟨hright, hleft⟩ := of_decide_eq_true hreceived
  have hreach := ClipboardExchange.reach_peer (TSys.reach_of_any_run _ hs) .right
  exact ⟨s, hs, hright, hleft, clipboard_sync.1 .bidirectional _ 64 _ (by decide +kernel) _ hreach⟩

end HbbCommon.Transport
