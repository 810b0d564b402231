import HbbCommon.Base.TSys
import HbbCommon.Transport.Datagram
import HbbCommon.Transport.Video.Logic.FragmentRoundTrip

/-!
# The datagram send buffer

The senders of one connection take turns under the gate of the coordinator, while
the connection drains the buffer, the datagram size of the path changes and the
policy of the coordinator is set anew.

`smallFloor` is the space that an audio or mouse datagram can count on: behind a frame
of video the interactive reserve, before the first frame what the buffer had at the
start. Nothing but audio and mouse datagrams takes from it, so that the free space
and what these have taken since (`smallSince`) together stay above it. A small
datagram that is dropped found less space than it needs, so the others have taken
the difference.
-/

namespace HbbCommon.Transport

open HbbCommon.Base

/-! ## The senders of one connection -/

inductive SendEvent
  /-- a call of `send_video_frame`: the datagrams of the frame, those the connection
  took, and the space left behind them -/
  | video (fragments sent : List Bytes) (spaceLeft : Nat)
  | small (length : Nat)
  | dropped (length : Nat)
  deriving DecidableEq, Repr

structure Senders where
  coordinator : QuicDatagramSendCoordinator
  connection : Connection
  /-- each sender, with its call that waits for the gate -/
  senders : List (QuicDatagramSender × Option EncodedCall)
  /-- newest first -/
  log : List SendEvent
  deriving DecidableEq

inductive SendersAction
  | start (sender timestampUs : Nat) (call : SendCall)
  | finish (sender : Nat) (path : PathStats)
  | drain (bytes : Nat)
  | setPolicy (targetUs minimumBytes : Nat)
  | setMaxDatagramSize (size : Option Nat)
  | close
  deriving DecidableEq, Repr

namespace Senders

/-- What the log keeps of a call. -/
def event (call : EncodedCall) (finished : Finished) : List SendEvent :=
  match call, finished.result with
  | .video fragments, _ => [.video fragments finished.sent finished.connection.space]
  | .audio datagram, .ok (.small (some _)) => [.small datagram.length]
  | .audio datagram, .ok (.small none) => [.dropped datagram.length]
  | .mouse datagram, .ok (.small (some _)) => [.small datagram.length]
  | .mouse datagram, .ok (.small none) => [.dropped datagram.length]
  | _, _ => []

def step (s : Senders) : SendersAction → Option Senders
  | .start i timestampUs call =>
      match s.senders[i]? with
      | some (sender, none) =>
          match sender.encode s.connection timestampUs call with
          | .error _ => some s
          | .ok encoded => some { s with senders := s.senders.set i (sender, some encoded) }
      | _ => none
  | .finish i path =>
      match s.senders[i]? with
      | some (sender, some call) =>
          let finished := sender.finish s.coordinator s.connection path call
          some
            { coordinator := finished.coordinator
              connection := finished.connection
              senders := s.senders.set i (finished.sender, none)
              log := event call finished ++ s.log }
      | _ => none
  | .drain bytes => some { s with connection := s.connection.drain bytes }
  | .setPolicy targetUs minimumBytes =>
      some { s with coordinator := s.coordinator.setVideoQueuePolicy targetUs minimumBytes }
  | .setMaxDatagramSize size =>
      some { s with connection := { s.connection with maxDatagramSize := size } }
  | .close => some { s with connection := { s.connection with closed := true } }

/-- Any number of senders on one coordinator, and a connection on which nothing has
been sent. -/
def system (reserve : Nat) (connection : Connection) (senders : List QuicDatagramSender) :
    TSys Senders SendersAction where
  init :=
    { coordinator := .new reserve connection.space
      connection := { connection with sent := [] }
      senders := senders.map (fun sender => (sender, none))
      log := [] }
  step := step

end Senders

/-! ## What the log says -/

/-- The bytes of audio and mouse datagrams since the last frame of video. -/
def smallSince : List SendEvent → Nat
  | [] => 0
  | .video _ sent _ :: older => if sent = [] then smallSince older else 0
  | .small length :: older => length + smallSince older
  | .dropped _ :: older => smallSince older

/-- A frame of video was sent. -/
def VideoSent (log : List SendEvent) : Prop :=
  ∃ fragments sent spaceLeft, SendEvent.video fragments sent spaceLeft ∈ log ∧ sent ≠ []

/-- The space that the small datagrams can count on. -/
def smallFloor (reserve start : Nat) : List SendEvent → Nat
  | [] => start
  | .video _ sent _ :: older => if sent = [] then smallFloor reserve start older else reserve
  | .small _ :: older => smallFloor reserve start older
  | .dropped _ :: older => smallFloor reserve start older

theorem smallFloor_cases (reserve start : Nat) (log : List SendEvent) :
    VideoSent log ∧ smallFloor reserve start log = reserve ∨
      ¬ VideoSent log ∧ smallFloor reserve start log = start := by
  induction log with
  | nil =>
      refine .inr ⟨?_, rfl⟩
      rintro ⟨_, _, _, hmem, _⟩
      cases hmem
  | cons e older ih =>
      -- an event that is no sent frame leaves both sides as they are
      have hother : (∀ fragments sent left, e = .video fragments sent left → sent = []) →
          (VideoSent (e :: older) ↔ VideoSent older) := by
        intro he
        constructor
        · rintro ⟨fragments, sent, left, hmem, hne⟩
          rcases List.mem_cons.mp hmem with rfl | hmem
          · exact absurd (he _ _ _ rfl) hne
          · exact ⟨fragments, sent, left, hmem, hne⟩
        · rintro ⟨fragments, sent, left, hmem, hne⟩
          exact ⟨fragments, sent, left, List.mem_cons_of_mem _ hmem, hne⟩
      cases e with
      | video fragments sent left =>
          by_cases hsent : sent = []
          · rw [hother (by rintro _ _ _ ⟨⟩; exact hsent)]
            simpa [smallFloor, hsent] using ih
          · exact .inl ⟨⟨_, _, _, List.mem_cons_self, hsent⟩, if_neg hsent⟩
      | small length =>
          rw [hother (by rintro _ _ _ ⟨⟩)]
          exact ih
      | dropped length =>
          rw [hother (by rintro _ _ _ ⟨⟩)]
          exact ih

/-! ## Sending -/

/-- The bytes of a list of datagrams. -/
def totalBytes (datagrams : List Bytes) : Nat := (datagrams.map List.length).sum

namespace Connection

variable {c c' : Connection} {datagram : Bytes}

theorem sendDatagram_spec (h : c.sendDatagram datagram = .ok c') :
    c'.space = c.space - datagram.length ∧
      c'.sent = { datagram := datagram, space := c.space } :: c.sent ∧
      c'.closed = c.closed ∧ c'.maxDatagramSize = c.maxDatagramSize := by
  unfold sendDatagram at h
  split at h
  · cases h
  · split at h
    · cases h
    · split at h
      · cases h
      · cases h
        exact ⟨rfl, rfl, rfl, rfl⟩

/-- The connection takes a datagram of this length, whatever the space. -/
def Takes (c : Connection) (length : Nat) : Prop :=
  c.closed = false ∧ ∃ limit, c.maxDatagramSize = some limit ∧ length ≤ limit

theorem exists_sendDatagram_iff : (∃ c', c.sendDatagram datagram = .ok c') ↔
    c.Takes datagram.length := by
  unfold sendDatagram Takes
  cases hclosed : c.closed with
  | true => simp
  | false =>
      cases hlimit : c.maxDatagramSize with
      | none => simp
      | some limit =>
          by_cases hfits : datagram.length ≤ limit
          · simp [Nat.not_lt.mpr hfits, hfits]
          · simp [Nat.lt_of_not_le hfits, hfits]

/-- The datagrams of `sent` found the space they needed. -/
def NoEviction (c : Connection) : Prop := ∀ d ∈ c.sent, d.datagram.length ≤ d.space

theorem NoEviction.sendDatagram (hc : c.NoEviction) (h : c.sendDatagram datagram = .ok c')
    (hspace : datagram.length ≤ c.space) : c'.NoEviction := by
  intro d hd
  rw [(sendDatagram_spec h).2.1] at hd
  rcases List.mem_cons.mp hd with rfl | hd
  · exact hspace
  · exact hc d hd

/-- A connection that takes the longest datagram of a list takes all of them. -/
theorem sendAll_of_longest {longest : Nat} {datagrams : List Bytes} (htakes : c.Takes longest)
    (hlongest : ∀ d ∈ datagrams, d.length ≤ longest) :
    ∃ c', c.sendAll datagrams = (c', datagrams, .ok ()) ∧
      c'.space = c.space - totalBytes datagrams ∧
      (totalBytes datagrams ≤ c.space → c.NoEviction → c'.NoEviction) := by
  induction datagrams generalizing c with
  | nil => exact ⟨c, rfl, by simp [totalBytes], fun _ h => h⟩
  | cons d rest ih =>
      obtain ⟨hopen, limit, hlimit, hle⟩ := htakes
      have hd := hlongest d List.mem_cons_self
      obtain ⟨c₁, h₁⟩ := exists_sendDatagram_iff.mpr ⟨hopen, limit, hlimit, hd.trans hle⟩
      obtain ⟨hspace₁, _, hclosed₁, hlimit₁⟩ := sendDatagram_spec h₁
      have htakes₁ : c₁.Takes longest := ⟨hclosed₁.trans hopen, limit, hlimit₁.trans hlimit, hle⟩
      obtain ⟨c', hall, hspace, hkeep⟩ :=
        ih htakes₁ (fun d hd => hlongest d (List.mem_cons_of_mem _ hd))
      have hcons : totalBytes (d :: rest) = d.length + totalBytes rest := rfl
      refine ⟨c', ?_, ?_, ?_⟩
      · simp only [sendAll, h₁, hall]
      · rw [hspace, hspace₁, Nat.sub_sub, hcons]
      · intro hfits hc
        rw [hcons] at hfits
        exact hkeep (by omega) (hc.sendDatagram h₁ (by omega))

end Connection

/-! ## A frame of video -/

/-- The datagrams of one frame. -/
def IsFrame (datagrams : List Bytes) : Prop := ∃ t : VideoTransmission, t.Fragmented datagrams

namespace IsFrame

variable {datagrams : List Bytes}

/-- Only the last chunk of a frame is shorter than the first. -/
theorem longest (h : IsFrame datagrams) :
    ∃ first rest, datagrams = first :: rest ∧ ∀ d ∈ datagrams, d.length ≤ first.length := by
  obtain ⟨t, h⟩ := h
  cases datagrams with
  | nil =>
      have hlength := h.length
      have hpos := h.count_pos
      simp at hlength
      omega
  | cons first rest =>
      refine ⟨first, rest, rfl, fun d hd => ?_⟩
      obtain ⟨i, hi⟩ := List.mem_iff_getElem?.mp hd
      have hchunk : (t.fragment i).length ≤ (t.fragment 0).length := by
        simp only [VideoTransmission.fragment, length_chunk, Nat.zero_mul, Nat.sub_zero]
        omega
      rw [VideoTransmission.length_encodeFragment (h.datagram i d hi).2,
        VideoTransmission.length_encodeFragment (h.datagram 0 first rfl).2]
      omega

theorem totalBytes_le (h : IsFrame datagrams) : totalBytes datagrams ≤ u64Max := by
  obtain ⟨t, h⟩ := h
  have hbound : ∀ n ∈ datagrams.map List.length,
      n ≤ headerLen + videoFragmentHeaderLen + maxDatagramFrameBytes := by
    intro n hn
    obtain ⟨d, hd, rfl⟩ := List.mem_map.mp hn
    obtain ⟨i, hi⟩ := List.mem_iff_getElem?.mp hd
    have hchunk : (t.fragment i).length ≤ t.frame.length := by
      simp only [VideoTransmission.fragment, length_chunk]
      omega
    have hframe := h.length_le
    rw [VideoTransmission.length_encodeFragment (h.datagram i d hi).2]
    omega
  have hsum := List.sum_le_card_nsmul _ _ hbound
  have hcount : datagrams.length ≤ maxVideoFragments := h.length ▸ h.count_le
  rw [List.length_map, smul_eq_mul] at hsum
  calc totalBytes datagrams
      ≤ datagrams.length * (headerLen + videoFragmentHeaderLen + maxDatagramFrameBytes) := hsum
    _ ≤ maxVideoFragments * (headerLen + videoFragmentHeaderLen + maxDatagramFrameBytes) :=
        Nat.mul_le_mul_right _ hcount
    _ ≤ u64Max := by decide

end IsFrame

namespace QuicDatagramSender

theorem foldl_satAdd_length (datagrams : List Bytes) (acc : Nat)
    (h : acc + totalBytes datagrams ≤ u64Max) :
    datagrams.foldl (fun total d => satAdd total d.length) acc = acc + totalBytes datagrams := by
  induction datagrams generalizing acc with
  | nil => rfl
  | cons d rest ih =>
      have hcons : totalBytes (d :: rest) = d.length + totalBytes rest := rfl
      rw [hcons] at h ⊢
      rw [List.foldl_cons, satAdd_of_le (by omega), ih _ (by omega)]
      omega

theorem datagramBytes_eq {datagrams : List Bytes} (h : IsFrame datagrams) :
    datagramBytes datagrams = totalBytes datagrams := by
  have hle := h.totalBytes_le
  rw [datagramBytes, foldl_satAdd_length _ _ (by omega), Nat.zero_add]

theorem admitted_iff {datagramBytes availableBytes reserve queuedBytes budget : Nat} :
    videoFrameAdmissionFailure datagramBytes availableBytes reserve queuedBytes budget = none ↔
      datagramBytes + reserve ≤ u64Max ∧ datagramBytes + reserve ≤ availableBytes ∧
        queuedBytes ≤ budget := by
  unfold videoFrameAdmissionFailure
  by_cases hsum : datagramBytes + reserve ≤ u64Max <;>
    by_cases hspace : datagramBytes + reserve ≤ availableBytes <;>
    by_cases hqueue : queuedBytes ≤ budget <;> simp [hsum, hspace, hqueue]

/-- A call of `send_video_frame` sends the whole frame and leaves the reserve, or it
leaves the connection alone. -/
theorem finishVideo_spec (s : QuicDatagramSender) (coordinator : QuicDatagramSendCoordinator)
    (connection : Connection) (path : PathStats) {fragments : List Bytes}
    (hframe : IsFrame fragments) :
    let f := s.finishVideo coordinator connection path fragments
    f.coordinator.interactiveReserveBytes = coordinator.interactiveReserveBytes ∧
      (f.sent = [] ∧ f.connection = connection ∨
        f.sent = fragments ∧
          f.connection.space = connection.space - totalBytes fragments ∧
          totalBytes fragments + coordinator.interactiveReserveBytes ≤ connection.space ∧
          (connection.NoEviction → f.connection.NoEviction)) := by
  intro f
  cases hfailure : videoFrameAdmissionFailure (datagramBytes fragments) connection.space
      coordinator.interactiveReserveBytes
      ((coordinator.recordSpace connection.space).2.1)
      (videoDatagramQueueBudget path.cwnd path.rttUs (coordinator.recordSpace connection.space).2.2
        coordinator.interactiveReserveBytes coordinator.videoQueueTargetUs
        coordinator.minVideoQueueBytes) with
  | some failure =>
      have hf : f.coordinator.interactiveReserveBytes = coordinator.interactiveReserveBytes ∧
          f.sent = [] ∧ f.connection = connection := by
        simp only [f, finishVideo, QuicDatagramSendCoordinator.recordSpace] at hfailure ⊢
        simp only [hfailure, and_self]
      exact ⟨hf.1, .inl hf.2⟩
  | none =>
      obtain ⟨_, hspace, _⟩ := admitted_iff.mp hfailure
      rw [datagramBytes_eq hframe] at hspace
      simp only [f, finishVideo, QuicDatagramSendCoordinator.recordSpace] at hfailure ⊢
      simp only [hfailure]
      split
      · exact ⟨rfl, .inl ⟨rfl, rfl⟩⟩
      · obtain ⟨first, rest, rfl, hlongest⟩ := hframe.longest
        by_cases htakes : connection.Takes first.length
        · obtain ⟨c', hall, hspace', hkeep⟩ := Connection.sendAll_of_longest htakes hlongest
          simp only [hall]
          exact ⟨trivial, .inr ⟨trivial, hspace', hspace, hkeep (by omega)⟩⟩
        · -- the first datagram is refused, so that none is sent
          cases hsend : connection.sendDatagram first with
          | ok c' => exact absurd (Connection.exists_sendDatagram_iff.mp ⟨c', hsend⟩) htakes
          | error error =>
              simp only [Connection.sendAll, hsend]
              exact ⟨trivial, .inl ⟨trivial, trivial⟩⟩

/-- One small datagram is dropped for want of space, or it is sent into space, or the
connection refuses it. -/
theorem finishSmall_spec (s : QuicDatagramSender) (coordinator : QuicDatagramSendCoordinator)
    (connection : Connection) (sequence : Nat) (datagram : Bytes) :
    let f := s.finishSmall coordinator connection sequence datagram
    f.coordinator.interactiveReserveBytes = coordinator.interactiveReserveBytes ∧
      (f.result = .ok (.small none) ∧ f.connection = connection ∧
          connection.space < datagram.length ∨
        (∃ error, f.result = .error error) ∧ f.connection = connection ∨
        f.result = .ok (.small (some sequence)) ∧ datagram.length ≤ connection.space ∧
          f.connection.space = connection.space - datagram.length ∧
          (connection.NoEviction → f.connection.NoEviction)) := by
  intro f
  simp only [f, finishSmall]
  split
  · rename_i hspace
    exact ⟨rfl, .inl ⟨rfl, rfl, hspace⟩⟩
  · rename_i hspace
    cases hsend : connection.sendDatagram datagram with
    | error error => exact ⟨rfl, .inr (.inl ⟨⟨_, rfl⟩, rfl⟩)⟩
    | ok c' =>
        refine ⟨rfl, .inr (.inr ⟨rfl, by omega, (Connection.sendDatagram_spec hsend).1, ?_⟩)⟩
        intro hc
        exact hc.sendDatagram hsend (by omega)

/-- What waits for the gate as a frame of video is one. -/
theorem isFrame_of_encode {s : QuicDatagramSender} {connection : Connection} {timestampUs : Nat}
    {call : SendCall} {fragments : List Bytes}
    (h : s.encode connection timestampUs call = .ok (.video fragments)) : IsFrame fragments := by
  cases call with
  | videoFrame metadata encodedFrame =>
      simp only [encode, bind_eq_ok] at h
      obtain ⟨maxDatagramSize, _, fragments', hfragments, heq⟩ := h
      cases heq
      cases ht : (s.transmission maxDatagramSize timestampUs metadata
          encodedFrame).fragmentVideoFrame with
      | error error =>
          rw [ht] at hfragments
          cases hfragments
      | ok datagrams =>
          rw [ht] at hfragments
          cases hfragments
          exact ⟨_, VideoTransmission.fragmented ht⟩
  | audioPacket _ _ _ _ _ =>
      simp only [encode, bind_eq_ok] at h
      obtain ⟨_, _, _, _, _, _, heq⟩ := h
      cases heq
  | mouseMovement _ _ _ _ _ =>
      simp only [encode, bind_eq_ok] at h
      obtain ⟨_, _, _, _, _, _, heq⟩ := h
      cases heq
  | applicationMouseMovement _ _ _ _ _ _ =>
      simp only [encode, bind_eq_ok] at h
      obtain ⟨_, _, _, _, _, _, heq⟩ := h
      cases heq

end QuicDatagramSender

/-! ## The invariant -/

namespace Senders

variable {s s' : Senders} {reserve start : Nat}

structure BufferInv (reserve start : Nat) (s : Senders) : Prop where
  reserve_eq : s.coordinator.interactiveReserveBytes = reserve
  frames : ∀ sender fragments, (sender, some (EncodedCall.video fragments)) ∈ s.senders →
    IsFrame fragments
  fits : s.connection.NoEviction
  whole : ∀ fragments sent spaceLeft, .video fragments sent spaceLeft ∈ s.log →
    sent = [] ∨ sent = fragments ∧ reserve ≤ spaceLeft
  floor_le : smallFloor reserve start s.log ≤ s.connection.space + smallSince s.log
  dropped : ∀ newer length older, s.log = newer ++ .dropped length :: older →
    smallFloor reserve start older < length + smallSince older

/-- A connection with no less space, and the same history. -/
theorem BufferInv.connection (h : BufferInv reserve start s) {c : Connection}
    (hsent : c.sent = s.connection.sent) (hspace : s.connection.space ≤ c.space) :
    BufferInv reserve start { s with connection := c } where
  reserve_eq := h.reserve_eq
  frames := h.frames
  fits := by
    intro d hd
    rw [hsent] at hd
    exact h.fits d hd
  whole := h.whole
  floor_le := h.floor_le.trans (Nat.add_le_add_right hspace _)
  dropped := h.dropped

theorem BufferInv.begin (h : BufferInv reserve start s) {i timestampUs : Nat} {call : SendCall}
    {sender : QuicDatagramSender} {encoded : EncodedCall}
    (hencode : sender.encode s.connection timestampUs call = .ok encoded) :
    BufferInv reserve start { s with senders := s.senders.set i (sender, some encoded) } where
  reserve_eq := h.reserve_eq
  frames := by
    intro sender' fragments hmem
    rcases List.mem_or_eq_of_mem_set hmem with hmem | heq
    · exact h.frames sender' fragments hmem
    · cases heq
      exact QuicDatagramSender.isFrame_of_encode hencode
  fits := h.fits
  whole := h.whole
  floor_le := h.floor_le
  dropped := h.dropped

/-- A call that returns without an entry. -/
theorem BufferInv.returned (h : BufferInv reserve start s) {i : Nat} {sender : QuicDatagramSender}
    {coordinator : QuicDatagramSendCoordinator}
    (hreserve : coordinator.interactiveReserveBytes = reserve) :
    BufferInv reserve start
      { s with coordinator := coordinator, senders := s.senders.set i (sender, none) } where
  reserve_eq := hreserve
  frames := by
    intro sender' fragments hmem
    rcases List.mem_or_eq_of_mem_set hmem with hmem | heq
    · exact h.frames sender' fragments hmem
    · cases heq
  fits := h.fits
  whole := h.whole
  floor_le := h.floor_le
  dropped := h.dropped

/-- An entry for which what the log says has to be shown when it is added. -/
def EventOk (reserve start : Nat) (space : Nat) (log : List SendEvent) : SendEvent → Prop
  | .video fragments sent spaceLeft =>
      (sent = [] ∧ smallFloor reserve start log ≤ space + smallSince log) ∨
        sent ≠ [] ∧ sent = fragments ∧ reserve ≤ spaceLeft ∧ reserve ≤ space
  | .small length => smallFloor reserve start log ≤ space + (length + smallSince log)
  | .dropped length =>
      smallFloor reserve start log < length + smallSince log ∧
        smallFloor reserve start log ≤ space + smallSince log

theorem BufferInv.logged (h : BufferInv reserve start s) {c : Connection} {e : SendEvent}
    (hfits : c.NoEviction) (he : EventOk reserve start c.space s.log e) :
    BufferInv reserve start { s with connection := c, log := e :: s.log } where
  reserve_eq := h.reserve_eq
  frames := h.frames
  fits := hfits
  whole := by
    intro fragments sent spaceLeft hmem
    rcases List.mem_cons.mp hmem with rfl | hmem
    · rcases he with ⟨hsent, _⟩ | ⟨_, hsent, hleft, _⟩
      · exact .inl hsent
      · exact .inr ⟨hsent, hleft⟩
    · exact h.whole fragments sent spaceLeft hmem
  floor_le := by
    cases e with
    | video fragments sent spaceLeft =>
        rcases he with ⟨hsent, hfloor⟩ | ⟨hsent, _, _, hspace⟩
        · simpa [smallFloor, smallSince, hsent] using hfloor
        · simpa [smallFloor, smallSince, hsent] using hspace
    | small length => exact he
    | dropped length => exact he.2
  dropped := by
    intro newer length older hsplit
    cases newer with
    | nil =>
        cases hsplit
        exact he.1
    | cons e' newer =>
        obtain ⟨_, hrest⟩ := List.cons.inj hsplit
        exact h.dropped newer length older hrest

/-- Behind the gate every call adds at most one entry, which says what it found. -/
theorem BufferInv.finished (h : BufferInv reserve start s) {i : Nat} {sender : QuicDatagramSender}
    {call : EncodedCall} (hmem : (sender, some call) ∈ s.senders) (path : PathStats) :
    let f := sender.finish s.coordinator s.connection path call
    BufferInv reserve start
      { coordinator := f.coordinator, connection := f.connection
        senders := s.senders.set i (f.sender, none), log := event call f ++ s.log } := by
  intro f
  have hfloor := h.floor_le
  -- an audio and a mouse datagram differ in the sequence number only
  have hsmall : ∀ (sender' : QuicDatagramSender) (sequence : Nat) (datagram : Bytes),
      f = sender'.finishSmall s.coordinator s.connection sequence datagram →
      (call = .audio datagram ∨ call = .mouse datagram) →
      BufferInv reserve start
        { coordinator := f.coordinator, connection := f.connection
          senders := s.senders.set i (f.sender, none), log := event call f ++ s.log } := by
    intro sender' sequence datagram hf hcall
    obtain ⟨hreserve, hcases⟩ :=
      sender'.finishSmall_spec s.coordinator s.connection sequence datagram
    rw [← hf] at hreserve hcases
    have hreserve := hreserve.trans h.reserve_eq
    rcases hcases with ⟨hresult, hconn, hspace⟩ | ⟨⟨error, hresult⟩, hconn⟩ |
      ⟨hresult, hle, hspace, hkeep⟩
    · have hevent : event call f = [.dropped datagram.length] := by
        rcases hcall with rfl | rfl <;> simp [event, hresult]
      rw [hevent, hconn]
      have hmissing : smallFloor reserve start s.log < datagram.length + smallSince s.log := by
        omega
      exact (h.returned hreserve).logged h.fits ⟨hmissing, hfloor⟩
    · have hevent : event call f = [] := by
        rcases hcall with rfl | rfl <;> simp [event, hresult]
      rw [hevent, hconn]
      exact h.returned hreserve
    · have hevent : event call f = [.small datagram.length] := by
        rcases hcall with rfl | rfl <;> simp [event, hresult]
      rw [hevent]
      have htaken : smallFloor reserve start s.log ≤
          f.connection.space + (datagram.length + smallSince s.log) := by
        omega
      exact (h.returned hreserve).logged (hkeep h.fits) htaken
  cases call with
  | video fragments =>
      have hframe := h.frames sender fragments hmem
      obtain ⟨hreserve, hcases⟩ :=
        sender.finishVideo_spec s.coordinator s.connection path hframe
      have hfits : f.connection.NoEviction := by
        rcases hcases with ⟨_, hconn⟩ | ⟨_, _, _, hkeep⟩
        · exact hconn ▸ h.fits
        · exact hkeep h.fits
      refine (h.returned (hreserve.trans h.reserve_eq)).logged hfits ?_
      rcases hcases with ⟨hsent, hconn⟩ | ⟨hsent, hspace, hle, _⟩
      · refine .inl ⟨hsent, ?_⟩
        show _ ≤ f.connection.space + _
        rw [show f.connection = s.connection from hconn]
        exact hfloor
      · have hleft : reserve ≤ f.connection.space := by
          rw [show f.connection.space = s.connection.space - totalBytes fragments from hspace]
          rw [h.reserve_eq] at hle
          omega
        obtain ⟨first, rest, hfragments, _⟩ := hframe.longest
        refine .inr ⟨?_, hsent, hleft, hleft⟩
        show f.sent ≠ []
        rw [show f.sent = fragments from hsent, hfragments]
        exact List.cons_ne_nil _ _
  | audio datagram => exact hsmall _ _ _ rfl (.inl rfl)
  | mouse datagram => exact hsmall _ _ _ rfl (.inr rfl)

theorem BufferInv.step (h : BufferInv reserve start s) {a : SendersAction}
    (hstep : s.step a = some s') : BufferInv reserve start s' := by
  cases a with
  | start i timestampUs call =>
      simp only [Senders.step] at hstep
      split at hstep
      · split at hstep
        · cases hstep
          exact h
        · rename_i hencode
          cases hstep
          exact h.begin hencode
      · cases hstep
  | finish i path =>
      simp only [Senders.step] at hstep
      split at hstep
      · rename_i hi
        cases hstep
        exact h.finished (List.mem_of_getElem? hi) path
      · cases hstep
  | drain bytes =>
      cases hstep
      exact h.connection rfl (Nat.le_min.mpr ⟨Nat.le_add_right _ _, s.connection.space_le⟩)
  | setPolicy targetUs minimumBytes =>
      cases hstep
      exact ⟨h.reserve_eq, h.frames, h.fits, h.whole, h.floor_le, h.dropped⟩
  | setMaxDatagramSize size =>
      cases hstep
      exact h.connection rfl (Nat.le_refl _)
  | close =>
      cases hstep
      exact h.connection rfl (Nat.le_refl _)

theorem bufferInv_init (reserve : Nat) (connection : Connection)
    (senders : List QuicDatagramSender) :
    BufferInv reserve connection.space (system reserve connection senders).init where
  reserve_eq := rfl
  frames := by
    intro sender fragments hmem
    obtain ⟨_, _, heq⟩ := List.mem_map.mp hmem
    cases heq
  fits := by
    intro d hd
    cases hd
  whole := by
    intro _ _ _ hmem
    cases hmem
  floor_le := Nat.le_add_right _ _
  dropped := by
    intro newer length older hsplit
    cases newer <;> cases hsplit

/-- In every interleaving of the senders of a connection, with any draining, any
change of the path and any policy between their turns: no datagram is sent into less
space than it needs, a frame of video is sent with all its datagrams or with none
and leaves the reserve free, and where an audio or mouse datagram is dropped, more
than the rest of the reserve has gone to audio and mouse since the last frame, or
since the start. -/
theorem send_buffer_safety (reserve : Nat) (connection : Connection)
    (senders : List QuicDatagramSender) {s : Senders}
    (hreach : (system reserve connection senders).Reach (fun _ _ => True) s) :
    (∀ d ∈ s.connection.sent, d.datagram.length ≤ d.space) ∧
      (∀ fragments sent spaceLeft, .video fragments sent spaceLeft ∈ s.log →
        sent = [] ∨ sent = fragments ∧ reserve ≤ spaceLeft) ∧
      ∀ newer length older, s.log = newer ++ .dropped length :: older →
        (VideoSent older ∨ reserve ≤ connection.space → reserve < length + smallSince older) ∧
          (¬ VideoSent older → connection.space < length + smallSince older) := by
  have hinv : BufferInv reserve connection.space s :=
    hreach.invariant (bufferInv_init reserve connection senders)
      (fun _ _ _ h _ hstep => h.step hstep)
  refine ⟨hinv.fits, hinv.whole, fun newer length older hsplit => ?_⟩
  have hdropped := hinv.dropped newer length older hsplit
  rcases smallFloor_cases reserve connection.space older with ⟨hvideo, hfloor⟩ | ⟨hvideo, hfloor⟩
  · exact ⟨fun _ => hfloor ▸ hdropped, fun h => absurd hvideo h⟩
  · rw [hfloor] at hdropped
    refine ⟨?_, fun _ => hdropped⟩
    rintro (h | hstart)
    · exact absurd h hvideo
    · omega

def bufferSession : SessionId := ⟨List.replicate 16 5, rfl⟩

/-- A buffer with room for one mouse datagram of 68 bytes and half another. -/
def smallBuffer : Connection :=
  { closed := false, maxDatagramSize := some 1200, capacity := 100, space := 100, sent := []
    space_le := Nat.le_refl _ }

/-- Two movements, of which the second finds too little space. -/
def twoMovements : List SendersAction :=
  [.start 0 1 (.mouseMovement .absolute 3 4 0 0), .finish 0 { cwnd := 10000, rttUs := 20000 },
    .start 0 2 (.mouseMovement .absolute 5 6 0 0), .finish 0 { cwnd := 10000, rttUs := 20000 }]

theorem send_buffer_safety_dropped :
    ∃ s, (system 100 smallBuffer [.new bufferSession 1200]).run twoMovements = some s ∧
      s.log = [.dropped 68, .small 68] ∧ 100 < 68 + smallSince [.small 68] := by
  have hrun : ((system 100 smallBuffer [.new bufferSession 1200]).run twoMovements).map
      (fun s => s.log) = some [.dropped 68, .small 68] := by
    decide +kernel
  obtain ⟨s, hs, hlog⟩ := Option.map_eq_some_iff.mp hrun
  refine ⟨s, hs, hlog, ?_⟩
  have hsafe := send_buffer_safety 100 smallBuffer [.new bufferSession 1200]
    (TSys.reach_of_any_run twoMovements hs)
  exact (hsafe.2.2 [] 68 [.small 68] hlog).1 (.inr (by decide))

end Senders

end HbbCommon.Transport
