import HbbCommon.Tcp.Logic.Sides

/-!
# The secure channel

In each direction the bytes of the reader's buffer, of the connection and of the sender
are the frames of the messages that are sent and not received, sealed with the numbers
that the receiver counts. Every step of either end keeps this, so nothing fails to open,
and a reader that has all the bytes has all the messages.
-/

namespace HbbCommon.Tcp

open HbbCommon.Base
open HbbCommon.Transport (Bytes)

variable {box : Secretbox} {key : Key} {mode : NonceMode}

/-! ## One direction -/

/-- The messages in flight: `mode` is the mode of the sender. -/
structure Flow (box : Secretbox) (key : Key) (mode : NonceMode) (o : Outbound) (wire : Bytes)
    (i : Inbound) : Prop where
  raw : o.raw = false
  sendCounter : o.counter = some (key, mode, UInt64.ofNat o.sent.length)
  sealedWith : o.sealedWith =
    o.sent.mapIdx (fun n msg => (mode.nonce (UInt64.ofNat (n + 1)) true, msg))
  short : ∀ msg ∈ o.sent, msg.length ≤ maxMessageLength
  closed : o.closed = true → o.unsent = []
  codec : i.codec.raw = false ∧ i.codec.maxPacketLength = defaultMaxPacketLength
  recvCounter : i.counter = some (key, mode.peer, UInt64.ofNat i.received.length)
  inFlight : ∃ later, o.sent = i.received ++ later ∧
    i.codec.Owes (i.readBuf ++ (wire ++ o.unsent)) (sealAll box key mode i.received.length later)
  reading : i.outcome = none ∨
    i.outcome = some (.ok ()) ∧ o.closed = true ∧ i.received = o.sent

namespace Flow

variable {o : Outbound} {wire : Bytes} {i : Inbound}

theorem send (h : Flow box key mode o wire i) (hopen : o.closed = false) {msg : Bytes}
    (hmsg : msg.length ≤ maxMessageLength) :
    Flow box key mode
      { o with
        unsent := o.unsent ++ BytesCodec.frame (sealNext box key mode o.sent.length msg)
        counter := some (key, mode, UInt64.ofNat (o.sent.length + 1))
        sent := o.sent ++ [msg]
        sealedWith := o.sealedWith ++
          [(mode.nonce (UInt64.ofNat (o.sent.length + 1)) true, msg)] } wire i := by
  obtain ⟨later, hsent, howes⟩ := h.inFlight
  refine ⟨h.raw, ?_, ?_, ?_, ?_, h.codec, h.recvCounter, ⟨later ++ [msg], ?_, ?_⟩, ?_⟩
  · rw [List.length_append]
    rfl
  · rw [List.mapIdx_concat, ← h.sealedWith]
  · intro m hm
    obtain hm | hm := List.mem_append.mp hm
    · exact h.short m hm
    · rw [List.mem_singleton.mp hm]
      exact hmsg
  · intro hclosed
    rw [hopen] at hclosed
    cases hclosed
  · rw [hsent, List.append_assoc]
  · have hconcat := howes.concat (sealNext box key mode o.sent.length msg)
    rw [sealAll_concat, ← List.length_append, ← hsent]
    simpa only [List.append_assoc] using hconcat
  · obtain hnone | ⟨-, hclosed, -⟩ := h.reading
    · exact .inl hnone
    · rw [hopen] at hclosed
      cases hclosed

theorem write {bytes unsent : Bytes} (h : Flow box key mode { o with unsent := bytes ++ unsent }
    wire i) : Flow box key mode { o with unsent := unsent } (wire ++ bytes) i where
  raw := h.raw
  sendCounter := h.sendCounter
  sealedWith := h.sealedWith
  short := h.short
  closed := fun hclosed => (List.append_eq_nil_iff.mp (h.closed hclosed)).2
  codec := h.codec
  recvCounter := h.recvCounter
  inFlight := by
    obtain ⟨later, hsent, howes⟩ := h.inFlight
    exact ⟨later, hsent, by rwa [List.append_assoc]⟩
  reading := h.reading

theorem read {n : Nat} (h : Flow box key mode o wire i) :
    Flow box key mode o (wire.drop n) { i with readBuf := i.readBuf ++ wire.take n } :=
  { h with
    inFlight := by
      obtain ⟨later, hsent, howes⟩ := h.inFlight
      refine ⟨later, hsent, ?_⟩
      rwa [List.append_assoc, ← List.append_assoc (wire.take n), List.take_append_drop] }

theorem close (h : Flow box key mode o wire i) (hunsent : o.unsent = []) :
    Flow box key mode { o with closed := true } wire i :=
  { h with
    closed := fun _ => hunsent
    reading := by
      obtain hnone | ⟨hended, -, hall⟩ := h.reading
      · exact .inl hnone
      · exact .inr ⟨hended, rfl, hall⟩ }

end Flow

/-- An endpoint reads as its reader does, and keeps the rest. -/
theorem Endpoint.next_spec (p : Endpoint) {eof : Bool} {r : FramedReadHalf} {result : Next}
    (hnext : p.reader.next box eof = (r, result)) :
    ∃ p', p.next box eof = (p', result) ∧ p'.reader = r ∧ p'.buffered = p.buffered ∧
      p'.isSplit = p.isSplit ∧
      (r.codec.raw = p.reader.codec.raw → p'.raw = p.raw) ∧
      (r.decrypt.map Encrypt.sendCounter = p.reader.decrypt.map Encrypt.sendCounter →
        p'.encrypt.map Encrypt.sendCounter = p.encrypt.map Encrypt.sendCounter) := by
  cases p with
  | joined stream =>
      refine ⟨.joined { stream with codec := r.codec, readBuf := r.readBuf, encrypt := r.decrypt },
        ?_, rfl, rfl, rfl, id, id⟩
      rw [reader] at hnext
      simp only [next, FramedStream.next, hnext]
  | split read write =>
      refine ⟨.split r write, ?_, rfl, rfl, rfl, fun _ => rfl, fun _ => rfl⟩
      rw [reader] at hnext
      simp only [next, hnext]

theorem Side.next_flow (hbox : box.Lawful) {s s' : Side} {o : Outbound} {wire : Bytes} {eof : Bool}
    (h : Flow box key mode o wire s.inbound) (heof : eof = true → o.closed = true ∧ wire = [])
    (hstep : s.next box eof = some s') :
    s'.sending = s.sending ∧ s'.outbound = s.outbound ∧ Flow box key mode o wire s'.inbound := by
  obtain ⟨later, hsent, howes⟩ := h.inFlight
  have hrest : eof = true → wire ++ o.unsent = [] := by
    intro htrue
    obtain ⟨hclosed, hwire⟩ := heof htrue
    rw [hwire, h.closed hclosed, List.append_nil]
  have hshort : ∀ msg ∈ later, msg.length ≤ maxMessageLength := by
    intro msg hmsg
    refine h.short msg ?_
    rw [hsent]
    exact List.mem_append_right _ hmsg
  have hreads := FramedReadHalf.next_reads hbox (r := s.endpoint.reader) h.codec.1 h.codec.2
    h.recvCounter hshort howes hrest
  unfold Side.next at hstep
  split at hstep
  · rename_i hfree
    have hnone : s.outcome = none := Option.isNone_iff_eq_none.mp (Bool.and_eq_true_iff.mp hfree).2
    generalize hnext : s.endpoint.reader.next box eof = result at hreads
    cases hreads with
    | wait settings decrypt owes last =>
        obtain ⟨p, hp, rfl, hbuffered, -, hraw, hcounter⟩ := s.endpoint.next_spec hnext
        have hout : ∀ outcome, { s with endpoint := p, outcome := outcome }.outbound =
            s.outbound := by
          intro outcome
          simp only [outbound, unsent, hbuffered, hraw settings.1, hcounter (by rw [decrypt])]
        have hflow : Flow box key mode o wire { s with endpoint := p }.inbound :=
          { h with
            codec := ⟨settings.1.trans h.codec.1, settings.2.trans h.codec.2⟩
            recvCounter := by
              show p.reader.decrypt.map Encrypt.recvCounter = _
              rw [decrypt]
              exact h.recvCounter
            inFlight := ⟨later, hsent, owes⟩ }
        rw [hp] at hstep
        cases eof with
        | false =>
            cases hstep
            exact ⟨rfl, hout s.outcome, hflow⟩
        | true =>
            cases hstep
            refine ⟨rfl, hout _, { hflow with reading := .inr ⟨rfl, (heof rfl).1, ?_⟩ }⟩
            show s.received = o.sent
            rw [hsent, last (hrest rfl)]
            exact (List.append_nil _).symm
    | item settings msgs_eq recvCounter sendCounter owes =>
        rename_i msg later'
        obtain ⟨p, hp, rfl, hbuffered, -, hraw, hcounter⟩ := s.endpoint.next_spec hnext
        rw [hp] at hstep
        cases hstep
        refine ⟨rfl, ?_, ?_⟩
        · simp only [outbound, unsent, hbuffered, hraw settings.1, hcounter sendCounter]
        · have hlength : (s.received ++ [msg]).length = s.inbound.received.length + 1 :=
            List.length_append
          refine { h with
            codec := ⟨settings.1.trans h.codec.1, settings.2.trans h.codec.2⟩
            recvCounter := ?_, inFlight := ⟨later', ?_, ?_⟩, reading := .inl hnone }
          · show p.reader.decrypt.map Encrypt.recvCounter =
              some (key, mode.peer, UInt64.ofNat (s.received ++ [msg]).length)
            rw [hlength, recvCounter]
          · show o.sent = s.received ++ [msg] ++ later'
            rw [hsent, msgs_eq, List.append_assoc]
            rfl
          · show p.reader.codec.Owes _ (sealAll box key mode (s.received ++ [msg]).length later')
            rw [hlength]
            exact owes
  · cases hstep

theorem FramedReadHalf.next_eof_ne_pending (box : Secretbox) (r : FramedReadHalf) :
    (r.next box true).2 ≠ .pending := by
  unfold next
  split
  · exact Next.noConfusion
  · exact Next.noConfusion
  · split
    · exact Next.noConfusion
    · split <;> exact Next.noConfusion

/-- At the end of the stream each call of `next` returns something. -/
theorem Side.next_eof (box : Secretbox) {s : Side} (hreadable : s.readable = true)
    (houtcome : s.outcome = none) :
    ∃ s', s.next box true = some s' ∧ s'.readable = true ∧
      (s'.outcome = none → s'.received.length = s.received.length + 1) := by
  obtain ⟨⟨r, result⟩, hnext⟩ : ∃ result, s.endpoint.reader.next box true = result := ⟨_, rfl⟩
  obtain ⟨p, hp, -, -, hsplit, -, -⟩ := s.endpoint.next_spec hnext
  have hfree : (p.isSplit || s.sending == .idle) = true := by
    rw [hsplit]
    exact hreadable
  have hpending := s.endpoint.reader.next_eof_ne_pending box
  rw [hnext] at hpending
  simp only [Side.next, hp, hreadable, houtcome, Option.isNone_none, Bool.and_self, if_true]
  cases result with
  | pending => exact absurd rfl hpending
  | item msg =>
      refine ⟨_, rfl, hfree, ?_⟩
      intro _
      exact List.length_append
  | failed error =>
      refine ⟨_, rfl, hfree, ?_⟩
      rintro ⟨⟩
  | ended =>
      refine ⟨_, rfl, hfree, ?_⟩
      rintro ⟨⟩

/-! ## Nonces -/

theorem NonceMode.take_nonce (mode : NonceMode) (seqnum : UInt64) (sending : Bool) :
    (mode.nonce seqnum sending).val.take 8 = toLeBytes 8 seqnum.toNat := by
  have hcounter : (getNonce seqnum).val.take 8 = toLeBytes 8 seqnum.toNat :=
    List.take_left' (length_toLeBytes 8 _)
  cases mode with
  | legacy => exact hcounter
  | directional role =>
      show ((getNonce seqnum).val.set _ _).take 8 = _
      rw [List.take_set_of_le (by decide), hcounter]

theorem NonceMode.nonce_inj {mode : NonceMode} {m n : UInt64} {sending : Bool}
    (h : mode.nonce m sending = mode.nonce n sending) : m = n := by
  have hbytes := congrArg (fun nonce => nonce.val.take 8) h
  simp only [take_nonce] at hbytes
  exact UInt64.toNat_inj.mp (toLeBytes_inj m.toNat_lt n.toNat_lt hbytes)

/-- The last byte of a directional nonce names the direction. -/
theorem NonceMode.nonce_ne_peer {role : SessionRole} (m n : UInt64) :
    (NonceMode.directional role).nonce m true ≠ (NonceMode.directional role).peer.nonce n true := by
  intro h
  have hlast := congrArg (fun nonce => nonce.val[nonceBytes - 1]?) h
  have hlength : ∀ seqnum, nonceBytes - 1 < (getNonce seqnum).val.length := by
    intro seqnum
    rw [(getNonce seqnum).property]
    decide
  cases role <;>
    simp [nonce, peer, hlength, nonceTagViewerToHost,
      nonceTagHostToViewer] at hlast

/-- The nonces of one direction, as long as its counter does not wrap. -/
theorem Flow.nonces_nodup {o : Outbound} {wire : Bytes} {i : Inbound}
    (h : Flow box key mode o wire i) (hcount : o.sent.length < 2 ^ 64) :
    (o.sealedWith.map Prod.fst).Nodup := by
  rw [h.sealedWith, List.Nodup, List.pairwise_iff_getElem]
  intro m n hm hn hlt heq
  rw [List.length_map, List.length_mapIdx] at hm hn
  simp only [List.getElem_map, List.getElem_mapIdx] at heq
  have hseqnum := congrArg UInt64.toNat (NonceMode.nonce_inj heq)
  rw [UInt64.toNat_ofNat', UInt64.toNat_ofNat', Nat.mod_eq_of_lt (by omega),
    Nat.mod_eq_of_lt (by omega)] at hseqnum
  omega

theorem Flow.map_snd_sealedWith {o : Outbound} {wire : Bytes} {i : Inbound}
    (h : Flow box key mode o wire i) : o.sealedWith.map Prod.snd = o.sent := by
  rw [h.sealedWith]
  apply List.ext_getElem
  · rw [List.length_map, List.length_mapIdx]
  · intro n _ _
    simp only [List.getElem_map, List.getElem_mapIdx]

theorem Flow.nonce_of_mem {o : Outbound} {wire : Bytes} {i : Inbound}
    (h : Flow box key mode o wire i) {nonce : Nonce} (hmem : nonce ∈ o.sealedWith.map Prod.fst) :
    ∃ seqnum, nonce = mode.nonce seqnum true := by
  obtain ⟨_, hpair, rfl⟩ := List.mem_map.mp hmem
  rw [h.sealedWith] at hpair
  obtain ⟨n, _, rfl⟩ := List.mem_mapIdx.mp hpair
  exact ⟨_, rfl⟩

/-! ## Both directions -/

/-- The mode of an end, when the left end has `mode`. -/
def NonceMode.atEnd (mode : NonceMode) : End → NonceMode
  | .left => mode
  | .right => mode.peer

theorem NonceMode.peer_atEnd (mode : NonceMode) (e : End) :
    (mode.atEnd e).peer = mode.atEnd e.other := by
  rcases mode with _ | _ | _ <;> cases e <;> rfl

theorem End.other_other (e : End) : e.other.other = e := by
  cases e <;> rfl

theorem End.other_ne (e : End) : e.other ≠ e := by
  cases e <;> decide

theorem End.eq_or_eq_other (d e : End) : d = e ∨ d = e.other := by
  cases d <;> cases e <;> decide

namespace Channel

structure Inv (box : Secretbox) (key : Key) (mode : NonceMode) (s : Channel) : Prop where
  flow : ∀ e, Flow box key (mode.atEnd e) (s.side e).outbound (s.wire e) (s.side e.other).inbound
  framable : ∀ e, (s.side e).sending.Framable

theorem flow_new (box : Secretbox) (key : Key) (mode : NonceMode) :
    Flow box key mode (Side.new key mode).outbound [] (Side.new key mode.peer).inbound where
  raw := rfl
  sendCounter := rfl
  sealedWith := rfl
  short := fun _ hmsg => nomatch hmsg
  closed := fun hclosed => nomatch hclosed
  codec := ⟨rfl, rfl⟩
  recvCounter := rfl
  inFlight := ⟨[], rfl, rfl⟩
  reading := .inl rfl

theorem inv_new (box : Secretbox) (key : Key) (mode : NonceMode) :
    Inv box key mode (new key mode) where
  flow := by
    intro e
    cases e with
    | left => exact flow_new box key mode
    | right =>
        have hflow := flow_new box key (mode.atEnd .right)
        rw [NonceMode.peer_atEnd] at hflow
        exact hflow
  framable := by
    intro e
    cases e <;> trivial

variable {s : Channel} {e : End} {t : Side}

@[simp] theorem setSide_same : (s.setSide e t).side e = t := Function.update_self _ _ _

@[simp] theorem setSide_other : (s.setSide e t).side e.other = s.side e.other :=
  Function.update_of_ne e.other_ne _ _

@[simp] theorem setWire_side (bytes : Bytes) : (s.setWire e bytes).side = s.side := rfl

@[simp] theorem setWire_same (bytes : Bytes) : (s.setWire e bytes).wire e = bytes :=
  Function.update_self _ _ _

theorem setWire_of_ne {d : End} (hne : d ≠ e) (bytes : Bytes) :
    (s.setWire e bytes).wire d = s.wire d :=
  Function.update_of_ne hne _ _

/-- A step of one end moves the direction it writes and the direction it reads. -/
theorem Inv.update (h : Inv box key mode s) {s' : Channel}
    (hside : s'.side e.other = s.side e.other) (hframable : (s'.side e).sending.Framable)
    (hout : Flow box key (mode.atEnd e) (s'.side e).outbound (s'.wire e) (s.side e.other).inbound)
    (hin : Flow box key (mode.atEnd e.other) (s.side e.other).outbound (s'.wire e.other)
      (s'.side e).inbound) : Inv box key mode s' where
  flow := by
    intro d
    obtain rfl | rfl := d.eq_or_eq_other e
    · rw [hside]
      exact hout
    · rw [e.other_other, hside]
      exact hin
  framable := by
    intro d
    obtain rfl | rfl := d.eq_or_eq_other e
    · exact hframable
    · rw [hside]
      exact h.framable _

theorem Inv.setSide (h : Inv box key mode s) (hframable : t.sending.Framable)
    (hout : Flow box key (mode.atEnd e) t.outbound (s.wire e) (s.side e.other).inbound)
    (hin : Flow box key (mode.atEnd e.other) (s.side e.other).outbound (s.wire e.other) t.inbound) :
    Inv box key mode (s.setSide e t) := by
  refine h.update (e := e) setSide_other ?_ ?_ ?_
  · rwa [setSide_same]
  · rwa [setSide_same]
  · rwa [setSide_same]

/-- The direction that an end reads. -/
theorem Inv.incoming (h : Inv box key mode s) (e : End) :
    Flow box key (mode.atEnd e.other) (s.side e.other).outbound (s.wire e.other)
      (s.side e).inbound := by
  have hflow := h.flow e.other
  rwa [e.other_other] at hflow

/-- A message of this length fits a packet with its authenticator. -/
def Limits : End × EndAction → Prop
  | (_, .sendRaw msg) => msg.length ≤ maxMessageLength
  | _ => True

instance : DecidablePred Limits
  | (_, .sendRaw msg) => inferInstanceAs (Decidable (msg.length ≤ maxMessageLength))
  | (_, .write _) | (_, .resume) | (_, .read _) | (_, .next) | (_, .nextEof) | (_, .intoSplit)
  | (_, .close) => .isTrue trivial

theorem Inv.step (hbox : box.Lawful) (h : Inv box key mode s) {a : End × EndAction} {s' : Channel}
    (hlimits : Limits a) (hstep : step box s a = some s') : Inv box key mode s' := by
  obtain ⟨e, a⟩ := a
  have hout := h.flow e
  have hin := h.incoming e
  cases a with
  | sendRaw msg =>
      obtain ⟨t, ht, rfl⟩ := Option.map_eq_some_iff.mp hstep
      have hlength : (sealNext box key (mode.atEnd e) (s.side e).sent.length msg).length ≤
          0x3FFFFFFF := by
        rw [length_sealNext hbox]
        exact le_trans (Nat.add_le_add_right hlimits 16) (by decide)
      obtain ⟨hopen, hframable, hinbound, houtbound⟩ :=
        Side.sendRaw_spec hout.raw hout.sendCounter hlength ht
      refine h.setSide hframable ?_ ?_
      · rw [houtbound]
        exact hout.send hopen hlimits
      · rwa [hinbound]
  | write n =>
      obtain ⟨⟨t, bytes⟩, ht, rfl⟩ := Option.map_eq_some_iff.mp hstep
      obtain ⟨hframable, hinbound, houtbound⟩ := Side.write_spec (h.framable e) ht
      rw [houtbound] at hout
      refine h.update (e := e) setSide_other ?_ ?_ ?_
      · simpa only [setWire_side, setSide_same] using hframable
      · rw [setWire_side, setSide_same, setWire_same]
        exact hout.write
      · rw [setWire_side, setSide_same, setWire_of_ne e.other_ne, hinbound]
        exact hin
  | resume =>
      obtain ⟨t, ht, rfl⟩ := Option.map_eq_some_iff.mp hstep
      obtain ⟨hframable, hinbound, houtbound⟩ := Side.resume_spec hout.raw (h.framable e) ht
      exact h.setSide hframable (by rwa [houtbound]) (by rwa [hinbound])
  | read n =>
      obtain ⟨t, ht, rfl⟩ := Option.map_eq_some_iff.mp hstep
      obtain ⟨hframable, houtbound, hinbound⟩ := Side.read_spec (h.framable e) ht
      refine h.update (e := e) setSide_other ?_ ?_ ?_
      · simpa only [setWire_side, setSide_same] using hframable
      · rw [setWire_side, setSide_same, setWire_of_ne e.other_ne.symm, houtbound]
        exact hout
      · rw [setWire_side, setSide_same, setWire_same, hinbound]
        exact hin.read
  | next =>
      obtain ⟨t, ht, rfl⟩ := Option.map_eq_some_iff.mp hstep
      obtain ⟨hsending, houtbound, hflow⟩ :=
        Side.next_flow hbox hin (fun htrue => by cases htrue) ht
      exact h.setSide (by rw [hsending]; exact h.framable e) (by rwa [houtbound]) hflow
  | nextEof =>
      simp only [Channel.step] at hstep
      split at hstep
      · rename_i hend
        obtain ⟨hclosed, hempty⟩ := Bool.and_eq_true_iff.mp hend
        obtain ⟨t, ht, rfl⟩ := Option.map_eq_some_iff.mp hstep
        obtain ⟨hsending, houtbound, hflow⟩ :=
          Side.next_flow hbox hin (fun _ => ⟨hclosed, List.isEmpty_iff.mp hempty⟩) ht
        exact h.setSide (by rw [hsending]; exact h.framable e) (by rwa [houtbound]) hflow
      · cases hstep
  | intoSplit =>
      obtain ⟨t, ht, rfl⟩ := Option.map_eq_some_iff.mp hstep
      obtain ⟨hframable, houtbound, hinbound⟩ := Side.intoSplit_spec (h.framable e) ht
      exact h.setSide hframable (by rwa [houtbound]) (by rwa [hinbound])
  | close =>
      obtain ⟨t, ht, rfl⟩ := Option.map_eq_some_iff.mp hstep
      obtain ⟨hunsent, hframable, hinbound, houtbound⟩ := Side.close_spec (h.framable e) ht
      refine h.setSide hframable ?_ (by rwa [hinbound])
      rw [houtbound]
      exact hout.close hunsent

/-! ### The end of the stream -/

/-- When the other end is shut down and everything is read, a call of `next` returns a
message or ends the stream. -/
theorem Inv.nextEof (hbox : box.Lawful) (h : Inv box key mode s)
    (hclosed : (s.side e.other).closed = true) (hwire : s.wire e.other = [])
    (hreadable : (s.side e).readable = true) (houtcome : (s.side e).outcome = none) :
    ∃ t, Channel.step box s (e, .nextEof) = some (s.setSide e t) ∧
      Inv box key mode (s.setSide e t) ∧ t.readable = true ∧
      (t.outcome = none → t.received.length = (s.side e).received.length + 1) := by
  obtain ⟨t, ht, hfree, hcount⟩ := Side.next_eof box hreadable houtcome
  have hstep : Channel.step box s (e, .nextEof) = some (s.setSide e t) := by
    simp only [Channel.step, hclosed, hwire, ht, List.isEmpty_nil, Bool.and_self, if_true,
      Option.map_some]
  exact ⟨t, hstep, h.step (a := (e, .nextEof)) hbox trivial hstep, hfree, hcount⟩

/-- Reading to the end returns all that was sent. -/
theorem Inv.readToEnd (hbox : box.Lawful) (h : Inv box key mode s)
    (hclosed : (s.side e.other).closed = true) (hwire : s.wire e.other = [])
    (hreadable : (s.side e).readable = true) :
    ∃ n s', (system box key mode).runFrom s (List.replicate n (e, .nextEof)) = some s' ∧
      (s'.side e).outcome = some (.ok ()) ∧ (s'.side e).received = (s.side e.other).sent := by
  -- each round that does not end the stream takes one of the messages that are left
  induction hleft : (s.side e.other).sent.length - (s.side e).received.length using
    Nat.strong_induction_on generalizing s with
  | _ left ih =>
      obtain hnone | ⟨hended, -, hall⟩ := (h.incoming e).reading
      · obtain ⟨t, hstep, hinv, hfree, hcount⟩ := h.nextEof hbox hclosed hwire hreadable hnone
        obtain hnone' | ⟨hended, -, hall⟩ := (hinv.incoming e).reading
        · obtain ⟨later, hsent, -⟩ := (hinv.incoming e).inFlight
          rw [setSide_same, setSide_other] at hsent
          rw [setSide_same] at hnone'
          have hlength := congrArg List.length hsent
          rw [List.length_append] at hlength
          change (s.side e.other).sent.length = t.received.length + later.length at hlength
          have hmore := hcount hnone'
          obtain ⟨n, s', hrun, hended, hall⟩ := ih
            ((s.side e.other).sent.length - t.received.length) (by omega) hinv
            (by rwa [setSide_other]) hwire (by rwa [setSide_same])
            (by rw [setSide_other, setSide_same])
          rw [setSide_other] at hall
          refine ⟨n + 1, s', ?_, hended, hall⟩
          rw [List.replicate_succ]
          show (Channel.step box s (e, .nextEof)).bind _ = some s'
          rw [hstep]
          exact hrun
        · refine ⟨1, s.setSide e t, ?_, hended, ?_⟩
          · show (Channel.step box s (e, .nextEof)).bind _ = _
            rw [hstep]
            rfl
          · rw [setSide_other] at hall
            exact hall
      · exact ⟨0, s, rfl, hended, hall⟩

/-! ### Everything is read -/

/-- Everything that the other end sent has been written, read and decoded. -/
def AllRead (s : Channel) (e : End) : Prop :=
  (s.side e.other).sending = .idle ∧ (s.side e.other).endpoint.buffered = [] ∧
    s.wire e.other = [] ∧ (s.side e).endpoint.reader.readBuf = []

instance (s : Channel) (e : End) : Decidable (s.AllRead e) :=
  inferInstanceAs (Decidable (_ ∧ _ ∧ _ ∧ _))

theorem Inv.received_eq (hbox : box.Lawful) (h : Inv box key mode s) (hread : s.AllRead e) :
    (s.side e).received = (s.side e.other).sent := by
  obtain ⟨later, hsent, howes⟩ := (h.incoming e).inFlight
  obtain ⟨hsending, hbuffered, hwire, hreadBuf⟩ := hread
  have hbytes : (s.side e).inbound.readBuf ++ (s.wire e.other ++ (s.side e.other).outbound.unsent) =
      [] := by
    show (s.side e).endpoint.reader.readBuf ++ (s.wire e.other ++ Sending.unsent
      (s.side e.other).endpoint.buffered (s.side e.other).sending) = []
    rw [hreadBuf, hwire, hsending, hbuffered]
    rfl
  rw [hbytes] at howes
  cases later with
  | nil => exact (hsent.trans (List.append_nil _)).symm
  | cons msg later =>
      rw [sealAll_cons] at howes
      have hlength := length_sealNext hbox key (mode.atEnd e.other)
        (s.side e).inbound.received.length msg
      have hnil := howes.first_eq_nil
      rw [hnil] at hlength
      cases hlength

/-- In the directional mode no nonce seals two messages. -/
theorem Inv.nonces_nodup {role : SessionRole} (h : Inv box key (.directional role) s)
    (hcount : ∀ e, (s.side e).sent.length < 2 ^ 64) :
    (((s.side .left).sealedWith ++ (s.side .right).sealedWith).map Prod.fst).Nodup := by
  rw [List.map_append, List.nodup_append]
  refine ⟨(h.flow .left).nonces_nodup (hcount .left), (h.flow .right).nonces_nodup (hcount .right),
    ?_⟩
  intro a ha b hb
  obtain ⟨m, rfl⟩ := (h.flow .left).nonce_of_mem ha
  obtain ⟨n, rfl⟩ := (h.flow .right).nonce_of_mem hb
  exact NonceMode.nonce_ne_peer m n

/-- For every run of the two ends: a reader gets the messages of the other end in order
and never an error; it has them all when it has read everything, and reading to the end
of a stream that is shut down gets there. Every message is sealed, and in the directional
mode no two messages with the same nonce. -/
theorem secure_channel (box : Secretbox) (hbox : box.Lawful) (key : Key) (mode : NonceMode)
    {s : Channel} (hreach : (system box key mode).Reach (fun _ a => Limits a) s) :
    (∀ e, (s.side e).received <+: (s.side e.other).sent ∧
      (∀ error, (s.side e).outcome ≠ some (.error error)) ∧
      ((s.side e).outcome = some (.ok ()) ∨ s.AllRead e →
        (s.side e).received = (s.side e.other).sent) ∧
      ((s.side e.other).closed = true → s.wire e.other = [] → (s.side e).readable = true →
        ∃ n s', (system box key mode).runFrom s (List.replicate n (e, .nextEof)) = some s' ∧
          (s'.side e).outcome = some (.ok ()) ∧
          (s'.side e).received = (s.side e.other).sent)) ∧
    (∀ e, (s.side e).sealedWith.map Prod.snd = (s.side e).sent) ∧
    (∀ role, mode = .directional role → (∀ e, (s.side e).sent.length < 2 ^ 64) →
      (((s.side .left).sealedWith ++ (s.side .right).sealedWith).map Prod.fst).Nodup) := by
  have hinv : Inv box key mode s :=
    hreach.invariant (inv_new box key mode) (fun _ _ _ h hlimits hstep => h.step hbox hlimits hstep)
  refine ⟨fun e => ⟨?_, ?_, ?_, ?_⟩, ?_, ?_⟩
  · obtain ⟨later, hsent, -⟩ := (hinv.incoming e).inFlight
    exact ⟨later, hsent.symm⟩
  · intro error herror
    obtain hnone | ⟨hended, -, -⟩ := (hinv.incoming e).reading
    · cases hnone.symm.trans herror
    · cases hended.symm.trans herror
  · rintro (hended | hread)
    · obtain hnone | ⟨-, -, hall⟩ := (hinv.incoming e).reading
      · cases hnone.symm.trans hended
      · exact hall
    · exact hinv.received_eq hbox hread
  · exact hinv.readToEnd hbox
  · intro e
    exact (hinv.flow e).map_snd_sealedWith
  · rintro role rfl
    exact hinv.nonces_nodup

/-- A stream of bytes made of the key and the nonce. -/
def sampleMask (nonce : Nonce) (key : Key) (i : Nat) : UInt8 :=
  key.val.getD (i % keyBytes) 0 ^^^ nonce.val.getD (i % nonceBytes) 0

def sampleCipher (nonce : Nonce) (key : Key) (bytes : Bytes) : Bytes :=
  bytes.mapIdx (fun i byte => byte ^^^ sampleMask nonce key i)

def sampleTag (nonce : Nonce) (key : Key) (body : Bytes) : Bytes :=
  (List.range macBytes).map (fun i => sampleMask nonce key i + body.sum)

/-- A box in the shape of a secretbox: an authenticator over key, nonce and ciphertext in
front of the message under a stream cipher. -/
def sampleBox : Secretbox where
  sealBox message nonce key :=
    sampleTag nonce key (sampleCipher nonce key message) ++ sampleCipher nonce key message
  openBox sealedBytes nonce key :=
    if sealedBytes.take macBytes = sampleTag nonce key (sealedBytes.drop macBytes) then
      some (sampleCipher nonce key (sealedBytes.drop macBytes))
    else none

theorem length_sampleTag (nonce : Nonce) (key : Key) (body : Bytes) :
    (sampleTag nonce key body).length = macBytes := by
  rw [sampleTag, List.length_map, List.length_range]

theorem sampleCipher_sampleCipher (nonce : Nonce) (key : Key) (bytes : Bytes) :
    sampleCipher nonce key (sampleCipher nonce key bytes) = bytes := by
  apply List.ext_getElem
  · simp only [sampleCipher, List.length_mapIdx]
  · intro i _ _
    simp only [sampleCipher, List.getElem_mapIdx, UInt8.xor_assoc, UInt8.xor_self, UInt8.xor_zero]

theorem sampleBox_lawful : sampleBox.Lawful where
  openBox_eq_some_iff := by
    intro sealedBytes nonce key message
    simp only [sampleBox]
    constructor
    · intro h
      split at h
      · rename_i htag
        cases h
        rw [sampleCipher_sampleCipher, ← htag, List.take_append_drop]
      · cases h
    · rintro rfl
      rw [List.take_left' (length_sampleTag _ _ _), List.drop_left' (length_sampleTag _ _ _),
        if_pos rfl, sampleCipher_sampleCipher]
  length_sealBox := by
    intro message nonce key
    simp only [sampleBox, List.length_append, length_sampleTag]
    rw [sampleCipher, List.length_mapIdx, Nat.add_comm]

def sampleKey : Key := ⟨List.replicate 32 7, rfl⟩

/-- A message that is cut at the split of either end, one behind it, and an empty one in
the other direction. -/
def sampleActions : List (End × EndAction) :=
  [(.left, .sendRaw [1, 2, 3]), (.left, .write 5), (.right, .read 5), (.right, .next),
    (.right, .intoSplit), (.left, .intoSplit), (.left, .sendRaw [4]), (.left, .write 15),
    (.left, .resume), (.left, .resume), (.left, .write 18), (.left, .resume), (.left, .resume),
    (.right, .sendRaw []), (.right, .resume), (.right, .write 17), (.right, .resume),
    (.right, .resume), (.right, .read 33), (.right, .next), (.right, .next), (.left, .read 17),
    (.left, .next)]

theorem secure_channel_split :
    ∃ s, (system sampleBox sampleKey (.directional .viewer)).run sampleActions = some s ∧
      (s.side .right).received = [[1, 2, 3], [4]] ∧
      (s.side .right).received = (s.side .left).sent ∧
      (s.side .left).received = (s.side .right).sent ∧
      (((s.side .left).sealedWith ++ (s.side .right).sealedWith).map Prod.fst).Nodup := by
  have hrun : ((system sampleBox sampleKey (.directional .viewer)).run sampleActions).map
      (fun s => decide (s.AllRead .right ∧ s.AllRead .left ∧
        (s.side .right).received = [[1, 2, 3], [4]] ∧
        ∀ e ∈ [End.left, End.right], (s.side e).sent.length < 2 ^ 64)) = some true := by
    decide +kernel
  obtain ⟨s, hs, hstate⟩ := Option.map_eq_some_iff.mp hrun
  obtain ⟨hright, hleft, hreceived, hcount⟩ := of_decide_eq_true hstate
  have hreach := TSys.reach_of_run (G := fun _ a => Limits a) sampleActions (by decide +kernel) hs
  obtain ⟨hends, -, hnonces⟩ :=
    secure_channel sampleBox sampleBox_lawful sampleKey (.directional .viewer) hreach
  refine ⟨s, hs, hreceived, (hends .right).2.2.1 (.inr hright), (hends .left).2.2.1 (.inr hleft),
    hnonces .viewer rfl ?_⟩
  intro e
  cases e with
  | left => exact hcount .left (by decide)
  | right => exact hcount .right (by decide)

end Channel

end HbbCommon.Tcp
